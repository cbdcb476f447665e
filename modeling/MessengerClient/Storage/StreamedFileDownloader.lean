import MessengerClient.Lib.Runs
import Mathlib

/-!
# MessengerClient.Storage.StreamedFileDownloader

A file downloaded by the reader that plays it, of `storage/streamed_file_downloader.cpp`.  Parts
are requested in order, a few at a time; parts that are loaded for playback come unasked.

The calls of the reader and of the file are kept in their order.  The part with which the
requests go on divides the parts: all before it are saved or requested, none from it on is
requested.  So a part that comes is counted off exactly when it was requested (`Counted`).
-/

namespace MessengerClient

namespace Storage

/-- `Loader::kPartSize`. -/
def kPartSize : Nat := 128 * 1024

def kRequestPartsCount : Int := 32

/-- What is asked of the reader and of the file, by offsets. -/
inductive Call where
  | loadForDownloader (offset : Nat)
  | doneForDownloader (offset : Nat)
  | continueDownloaderFromMainThread
  | cancelForDownloader
  | writeResultPart (offset : Nat)
  | finalizeResult
deriving DecidableEq, Repr

/-- The size is also that of the reader. -/
structure StreamedFileDownloader where
  size : Nat
  partIsSaved : List Bool
  nextPartIndex : Nat := 0
  partsCount : Nat
  partsRequested : Int := 0
  partsSaved : Int := 0
  finished : Bool := false
  cancelled : Bool := false
  calls : List Call := []
deriving DecidableEq, Repr

namespace StreamedFileDownloader

def new (size : Nat) : StreamedFileDownloader :=
  let partsCount := (size + kPartSize - 1) / kPartSize
  { size, partsCount, partIsSaved := List.replicate partsCount false }

variable (s : StreamedFileDownloader)

def call (c : Call) : StreamedFileDownloader := { s with calls := s.calls ++ [c] }

/-! ## Requests -/

def requestPart : StreamedFileDownloader :=
  let index := s.nextPartIndex + (s.partIsSaved.drop s.nextPartIndex).findIdx (· == false)
  if index = s.partsCount then
    { s with nextPartIndex := s.partsCount }
  else
    let s := { s with nextPartIndex := index + 1 }
    let s := s.call (.loadForDownloader (index * kPartSize))
    { s with partsRequested := s.partsRequested + 1 }

variable {s} in
theorem nextPartIndex_requestPart (h : s.nextPartIndex < s.partsCount) :
    s.nextPartIndex < s.requestPart.nextPartIndex := by
  unfold requestPart call
  dsimp only
  split
  · exact h
  · exact Nat.lt_succ_of_le (Nat.le_add_right _ _)

@[simp] theorem partsCount_requestPart : s.requestPart.partsCount = s.partsCount := by
  unfold requestPart call
  dsimp only
  split <;> rfl

/-- The loop of `requestParts`. -/
def requestMore (s : StreamedFileDownloader) : StreamedFileDownloader :=
  if _h : s.finished = false ∧ s.nextPartIndex < s.partsCount ∧
      s.partsRequested < kRequestPartsCount then
    requestMore s.requestPart
  else
    s
termination_by s.partsCount - s.nextPartIndex
decreasing_by
  have := nextPartIndex_requestPart _h.2.1
  rw [partsCount_requestPart]
  omega

def requestParts : StreamedFileDownloader :=
  s.requestMore.call .continueDownloaderFromMainThread

/-! ## Parts -/

def cancelHook : StreamedFileDownloader :=
  { s with partsRequested := 0, nextPartIndex := 0 }.call .cancelForDownloader

def cancel : StreamedFileDownloader :=
  { s.cancelHook with cancelled := true, finished := true }

/-- `success` says whether the file takes the data. -/
def finalizeResult (success : Bool) : StreamedFileDownloader :=
  let s := s.call .finalizeResult
  if success then { s with finished := true } else s.cancel

/-- What a part does before it is written. -/
def markSaved (index : Nat) : StreamedFileDownloader :=
  let s := { s with
    partIsSaved := s.partIsSaved.set index true
    partsSaved := s.partsSaved + 1 }
  if index < s.nextPartIndex then { s with partsRequested := s.partsRequested - 1 } else s

/-- A part at an offset; `written` and `finalized` say whether the file takes the data.  `none`
is a failed `Expects` or `Assert`. -/
def savePart (offset : Int) (written finalized : Bool) : Option StreamedFileDownloader :=
  if ¬(offset ≥ 0 ∧ offset < s.size) ∨ offset % kPartSize ≠ 0 then
    none
  else if s.finished || s.cancelled then
    some s
  else
    let index := offset.toNat / kPartSize
    if index ≥ s.partsCount then
      none
    else if s.partIsSaved.getD index false then
      some s
    else
      let s := (s.markSaved index).call (.writeResultPart offset.toNat)
      if !written then
        some s.cancel
      else
        let s := s.call (.doneForDownloader offset.toNat)
        if s.partsSaved = s.partsCount then
          some (s.finalizeResult finalized)
        else
          some s.requestParts

/-! ## Runs -/

inductive Action where
  | requestParts
  | part (offset : Int) (written finalized : Bool)
  /-- A part with `LoadedPart::kFailedOffset`. -/
  | failedPart
  | cancel
deriving DecidableEq, Repr

def act (s : StreamedFileDownloader) : Action → Option StreamedFileDownloader
  | .requestParts => some s.requestParts
  | .part offset written finalized => s.savePart offset written finalized
  | .failedPart => some s.cancel
  | .cancel => some s.cancel

/-- A part of the file that the reader may deliver. -/
def Action.Delivered (size : Nat) : Action → Prop
  | .part offset _ _ => 0 ≤ offset ∧ offset < size ∧ offset % kPartSize = 0
  | _ => True

/-! ## What is counted -/

def saved (i : Nat) : Bool := s.partIsSaved.getD i false

def Requested (i : Nat) : Prop := Call.loadForDownloader (i * kPartSize) ∈ s.calls

instance (i : Nat) : Decidable (s.Requested i) := inferInstanceAs (Decidable (_ ∈ _))

/-- The parts that were requested and are not saved. -/
def waiting : Finset Nat :=
  (Finset.range s.partsCount).filter fun i => s.Requested i ∧ s.saved i = false

/-- Of two calls in their order, the later one does not ask for a part that was requested or
written, write a part again, or finalize again. -/
def Once (first second : Call) : Prop :=
  (∀ offset, first = .loadForDownloader offset ∨ first = .writeResultPart offset →
    second ≠ .loadForDownloader offset) ∧
  (∀ offset, first = .writeResultPart offset → second ≠ .writeResultPart offset) ∧
  (first = .finalizeResult → second ≠ .finalizeResult)

/-- **The counters and the sets of parts.** -/
structure Counted : Prop where
  length : s.partIsSaved.length = s.partsCount
  next_le : s.nextPartIndex ≤ s.partsCount
  requested_lt : ∀ i, s.Requested i → i < s.nextPartIndex
  covered : ∀ i < s.nextPartIndex, s.saved i = true ∨ s.Requested i
  partsRequested : s.partsRequested = s.waiting.card
  atMost : s.partsRequested ≤ kRequestPartsCount
  partsSaved : s.partsSaved = s.partIsSaved.count true
  written : ∀ i, Call.writeResultPart (i * kPartSize) ∈ s.calls ↔ s.saved i = true
  once : s.calls.Pairwise Once

variable {s} {i index : Nat}

theorem saved_eq_getElem (h : i < s.partIsSaved.length) : s.saved i = s.partIsSaved[i] := by
  rw [saved, List.getD_eq_getElem?_getD, List.getElem?_eq_getElem h, Option.getD_some]

theorem offset_inj {j : Nat} : i * kPartSize = j * kPartSize ↔ i = j :=
  Nat.mul_left_inj (by decide)

@[simp] theorem calls_call (c : Call) : (s.call c).calls = s.calls ++ [c] := rfl

theorem requested_call (c : Call) (hc : ∀ offset, c ≠ .loadForDownloader offset) :
    (s.call c).Requested i ↔ s.Requested i := by
  rw [Requested, calls_call, List.mem_append, List.mem_singleton]
  exact or_iff_left fun h => hc _ h.symm

theorem mem_waiting : i ∈ s.waiting ↔ i < s.partsCount ∧ s.Requested i ∧ s.saved i = false := by
  rw [waiting, Finset.mem_filter, Finset.mem_range]

theorem once_call {calls : List Call} {c : Call} (h : calls.Pairwise Once)
    (hc : ∀ first ∈ calls, Once first c) : (calls ++ [c]).Pairwise Once := by
  refine List.pairwise_append.mpr ⟨h, List.pairwise_singleton _ _, ?_⟩
  intro first hfirst second hsecond
  rw [List.mem_singleton.mp hsecond]
  exact hc first hfirst

/-- A call that neither asks for a part nor writes one nor finalizes. -/
theorem Counted.call (h : s.Counted) (c : Call)
    (hload : ∀ offset, c ≠ .loadForDownloader offset)
    (hwrite : ∀ offset, c ≠ .writeResultPart offset)
    (honce : c = .finalizeResult → .finalizeResult ∉ s.calls) : (s.call c).Counted where
  length := h.length
  next_le := h.next_le
  requested_lt := fun i hi => h.requested_lt i ((requested_call c hload).mp hi)
  covered := fun i hi => (h.covered i hi).imp_right (requested_call c hload).mpr
  partsRequested := by
    have hwaiting : (s.call c).waiting = s.waiting := by
      ext i
      rw [mem_waiting, mem_waiting, requested_call c hload]
      rfl
    rw [hwaiting]
    exact h.partsRequested
  atMost := h.atMost
  partsSaved := h.partsSaved
  written := fun i => by
    rw [calls_call, List.mem_append, List.mem_singleton, or_iff_left fun heq => hwrite _ heq.symm]
    exact h.written i
  once := once_call h.once fun first hfirst =>
    ⟨fun _ _ => hload _, fun _ _ => hwrite _, fun heq hc => honce hc (heq ▸ hfirst)⟩

/-! ## Requesting -/

/-- Where the search for a part stops: before it all are saved, and it is not. -/
theorem firstUnsaved_spec (h : s.Counted) :
    let index := s.nextPartIndex + (s.partIsSaved.drop s.nextPartIndex).findIdx (· == false)
    s.nextPartIndex ≤ index ∧ index ≤ s.partsCount ∧
      (∀ i, s.nextPartIndex ≤ i → i < index → s.saved i = true) ∧
      (index < s.partsCount → s.saved index = false) := by
  intro index
  have hlength : (s.partIsSaved.drop s.nextPartIndex).length = s.partsCount - s.nextPartIndex := by
    rw [List.length_drop, h.length]
  have hle : (s.partIsSaved.drop s.nextPartIndex).findIdx (· == false) ≤
      (s.partIsSaved.drop s.nextPartIndex).length := List.findIdx_le_length
  have hnext := h.next_le
  refine ⟨Nat.le_add_right _ _, by omega, fun i hlo hlt => ?_, fun hlt => ?_⟩
  · have hi : i - s.nextPartIndex < (s.partIsSaved.drop s.nextPartIndex).findIdx (· == false) := by
      omega
    have hnot := List.not_of_lt_findIdx hi
    rw [List.getElem_drop] at hnot
    rw [saved_eq_getElem (by rw [h.length]; omega)]
    simpa [Nat.add_sub_cancel' hlo] using hnot
  · have hinside : (s.partIsSaved.drop s.nextPartIndex).findIdx (· == false) <
        (s.partIsSaved.drop s.nextPartIndex).length := by omega
    have hfound := List.findIdx_getElem (w := hinside)
    rw [List.getElem_drop] at hfound
    rw [saved_eq_getElem (by rw [h.length]; exact hlt)]
    simpa [index] using hfound

theorem saved_length_le (h : s.partIsSaved.length ≤ i) : s.saved i = false := by
  rw [saved, List.getD_eq_getElem?_getD, List.getElem?_eq_none h, Option.getD_none]

theorem Counted.lt_of_saved (h : s.Counted) (hi : s.saved i = true) : i < s.partsCount := by
  by_contra hge
  have hnone := saved_length_le (h.length.trans_le (not_lt.mp hge))
  rw [hi] at hnone
  cases hnone

/-- A part that is asked for joins those that are waited for. -/
theorem waiting_load {s' : StreamedFileDownloader} (hcount : s'.partsCount = s.partsCount)
    (hparts : s'.partIsSaved = s.partIsSaved)
    (hcalls : s'.calls = s.calls ++ [.loadForDownloader (index * kPartSize)])
    (hlt : index < s.partsCount) (hunsaved : s.saved index = false) :
    s'.waiting = insert index s.waiting := by
  ext i
  rw [Finset.mem_insert, mem_waiting, mem_waiting, hcount, saved, hparts, Requested, hcalls,
    List.mem_append, List.mem_singleton, Call.loadForDownloader.injEq, offset_inj]
  constructor
  · rintro ⟨hi, hreq | rfl, hsaved⟩
    · exact .inr ⟨hi, hreq, hsaved⟩
    · exact .inl rfl
  · rintro (rfl | ⟨hi, hreq, hsaved⟩)
    · exact ⟨hlt, .inr rfl, hunsaved⟩
    · exact ⟨hi, .inl hreq, hsaved⟩

/-- **A request keeps the counters**: the part is neither saved nor requested before. -/
theorem Counted.requestPart (h : s.Counted) (hroom : s.partsRequested < kRequestPartsCount) :
    s.requestPart.Counted := by
  obtain ⟨hge, hle, hbefore, hunsaved⟩ := firstUnsaved_spec h
  unfold StreamedFileDownloader.requestPart
  generalize s.nextPartIndex +
    (s.partIsSaved.drop s.nextPartIndex).findIdx (· == false) = index at *
  dsimp only
  split
  · next hend =>
    -- all the parts that are left are saved
    refine { h with next_le := le_rfl, requested_lt := fun i hi => ?_, covered := fun i hi => ?_ }
    · exact (h.requested_lt i hi).trans_le h.next_le
    · by_cases hold : i < s.nextPartIndex
      · exact h.covered i hold
      · exact .inl (hbefore i (not_lt.mp hold) (hend ▸ hi))
  next hnot =>
  have hlt : index < s.partsCount := lt_of_le_of_ne hle hnot
  have hunsaved := hunsaved hlt
  have hnew : ¬s.Requested index := fun hi => absurd (h.requested_lt index hi) (not_lt.mpr hge)
  have hrequested : ∀ i, Call.loadForDownloader (i * kPartSize) ∈
      s.calls ++ [.loadForDownloader (index * kPartSize)] ↔ s.Requested i ∨ i = index := by
    intro i
    rw [List.mem_append, List.mem_singleton, Call.loadForDownloader.injEq, offset_inj]
    rfl
  constructor
  · exact h.length
  · exact hlt
  · intro i hi
    cases (hrequested i).mp hi with
    | inl hold => exact (h.requested_lt i hold).trans_le (hge.trans (Nat.le_succ _))
    | inr heq => exact heq ▸ Nat.lt_succ_self _
  · intro i hi
    by_cases hold : i < s.nextPartIndex
    · exact (h.covered i hold).imp_right fun hi => (hrequested i).mpr (.inl hi)
    · cases Nat.lt_succ_iff_lt_or_eq.mp hi with
      | inl hlt => exact .inl (hbefore i (not_lt.mp hold) hlt)
      | inr heq => exact .inr ((hrequested i).mpr (.inr heq))
  · -- the part joins those that are waited for
    have hnotin : index ∉ s.waiting := fun hi => hnew (mem_waiting.mp hi).2.1
    have hcard : s.partsRequested + 1 = ((insert index s.waiting).card : Int) := by
      rw [h.partsRequested, Finset.card_insert_of_notMem hnotin, Nat.cast_succ]
    refine hcard.trans (congrArg (fun parts : Finset Nat => (parts.card : Int)) ?_)
    symm
    exact waiting_load rfl rfl rfl hlt hunsaved
  · exact Int.add_one_le_iff.mpr hroom
  · exact h.partsSaved
  · intro i
    rw [calls_call, List.mem_append, List.mem_singleton, or_iff_left fun heq => by cases heq]
    exact h.written i
  · refine once_call h.once fun first hfirst => ⟨fun offset hsame hsecond => ?_, ?_, ?_⟩
    · obtain rfl := Call.loadForDownloader.inj hsecond
      cases hsame with
      | inl heq =>
        rw [heq] at hfirst
        exact hnew hfirst
      | inr heq =>
        rw [(h.written index).mp (heq ▸ hfirst)] at hunsaved
        cases hunsaved
    · exact fun _ _ heq => by cases heq
    · exact fun _ heq => by cases heq

theorem Counted.requestMore (h : s.Counted) : s.requestMore.Counted := by
  induction s using StreamedFileDownloader.requestMore.induct with
  | case1 s hmore ih =>
    rw [StreamedFileDownloader.requestMore, dif_pos hmore]
    exact ih (h.requestPart hmore.2.2)
  | case2 s hstop =>
    rw [StreamedFileDownloader.requestMore, dif_neg hstop]
    exact h

theorem Counted.requestParts (h : s.Counted) : s.requestParts.Counted :=
  h.requestMore.call _ (fun _ heq => by cases heq) (fun _ heq => by cases heq)
    fun heq => by cases heq

/-- What requests leave as it was. -/
structure Kept (s s' : StreamedFileDownloader) : Prop where
  size : s'.size = s.size
  partsCount : s'.partsCount = s.partsCount
  partsSaved : s'.partsSaved = s.partsSaved
  finished : s'.finished = s.finished
  cancelled : s'.cancelled = s.cancelled
  finalized : Call.finalizeResult ∈ s'.calls ↔ Call.finalizeResult ∈ s.calls

theorem Kept.trans {s' s'' : StreamedFileDownloader} (h : Kept s s') (h' : Kept s' s'') :
    Kept s s'' where
  size := h'.size.trans h.size
  partsCount := h'.partsCount.trans h.partsCount
  partsSaved := h'.partsSaved.trans h.partsSaved
  finished := h'.finished.trans h.finished
  cancelled := h'.cancelled.trans h.cancelled
  finalized := h'.finalized.trans h.finalized

theorem kept_call (c : Call) (hc : c ≠ .finalizeResult) : Kept s (s.call c) where
  size := rfl
  partsCount := rfl
  partsSaved := rfl
  finished := rfl
  cancelled := rfl
  finalized := by
    rw [calls_call, List.mem_append, List.mem_singleton]
    exact or_iff_left hc.symm

theorem kept_requestPart : Kept s s.requestPart := by
  unfold StreamedFileDownloader.requestPart
  dsimp only
  split
  · exact ⟨rfl, rfl, rfl, rfl, rfl, Iff.rfl⟩
  · have hcall := kept_call (s := s) (.loadForDownloader ((s.nextPartIndex +
      (s.partIsSaved.drop s.nextPartIndex).findIdx (· == false)) * kPartSize))
      (fun heq => by cases heq)
    exact ⟨rfl, rfl, rfl, rfl, rfl, hcall.finalized⟩

theorem kept_requestMore : Kept s s.requestMore := by
  induction s using StreamedFileDownloader.requestMore.induct with
  | case1 s hmore ih =>
    rw [StreamedFileDownloader.requestMore, dif_pos hmore]
    exact kept_requestPart.trans ih
  | case2 s hstop =>
    rw [StreamedFileDownloader.requestMore, dif_neg hstop]
    exact ⟨rfl, rfl, rfl, rfl, rfl, Iff.rfl⟩

theorem kept_requestParts : Kept s s.requestParts :=
  kept_requestMore.trans (kept_call _ fun heq => by cases heq)

/-! ## Saving -/

theorem saved_set (hlt : index < s.partIsSaved.length) :
    (s.partIsSaved.set index true).getD i false = true ↔ s.saved i = true ∨ i = index := by
  rw [saved, List.getD_eq_getElem?_getD, List.getD_eq_getElem?_getD]
  by_cases heq : i = index
  · rw [heq, List.getElem?_set_self hlt]
    exact iff_of_true rfl (.inr rfl)
  · rw [List.getElem?_set_ne (Ne.symm heq), or_iff_left heq]

/-- A saved part is not waited for. -/
theorem waiting_save {s' : StreamedFileDownloader} (hcount : s'.partsCount = s.partsCount)
    (hparts : s'.partIsSaved = s.partIsSaved.set index true)
    (hrequested : ∀ i, s'.Requested i ↔ s.Requested i) (hlt : index < s.partIsSaved.length) :
    s'.waiting = s.waiting.erase index := by
  ext i
  have hsaved := saved_set (s := s) (i := i) hlt
  rw [← hparts] at hsaved
  rw [Finset.mem_erase, mem_waiting, mem_waiting, hcount, hrequested, ← Bool.not_eq_true, saved,
    hsaved, not_or, Bool.not_eq_true]
  tauto

theorem markSaved_eq (index : Nat) : s.markSaved index = { s with
    partIsSaved := s.partIsSaved.set index true
    partsSaved := s.partsSaved + 1
    partsRequested := s.partsRequested - if index < s.nextPartIndex then 1 else 0 } := by
  unfold markSaved
  dsimp only
  split
  · rfl
  · rw [sub_zero]

/-- **A part that comes keeps the counters**: it is counted off where it was waited for. -/
theorem Counted.save (h : s.Counted) (hlt : index < s.partsCount)
    (hunsaved : s.saved index = false) :
    ((s.markSaved index).call (.writeResultPart (index * kPartSize))).Counted := by
  have hlength : index < s.partIsSaved.length := h.length ▸ hlt
  have hrequested : ∀ i, Call.loadForDownloader (i * kPartSize) ∈
      s.calls ++ [.writeResultPart (index * kPartSize)] ↔ s.Requested i :=
    fun i => requested_call (.writeResultPart _) fun _ heq => by cases heq
  have hcard : s.partsRequested - (if index < s.nextPartIndex then 1 else 0) =
      ((s.waiting.erase index).card : Int) := by
    rw [h.partsRequested]
    split
    · next hbefore =>
      have hmem : index ∈ s.waiting := by
        refine mem_waiting.mpr ⟨hlt, (h.covered index hbefore).resolve_left fun hs => ?_, hunsaved⟩
        rw [hunsaved] at hs
        cases hs
      rw [← Finset.card_erase_add_one hmem, Nat.cast_succ, add_sub_cancel_right]
    · next hafter =>
      have hmem : index ∉ s.waiting := fun hmem =>
        hafter (h.requested_lt index (mem_waiting.mp hmem).2.1)
      rw [Finset.erase_eq_of_notMem hmem, sub_zero]
  rw [markSaved_eq]
  constructor
  · exact List.length_set.trans h.length
  · exact h.next_le
  · exact fun i hi => h.requested_lt i ((hrequested i).mp hi)
  · exact fun i hi => (h.covered i hi).imp (fun hs => (saved_set hlength).mpr (.inl hs))
      (hrequested i).mpr
  · refine hcard.trans (congrArg (fun parts : Finset Nat => (parts.card : Int)) ?_)
    symm
    exact waiting_save rfl rfl hrequested hlength
  · have hroom := h.atMost
    change s.partsRequested - (if index < s.nextPartIndex then 1 else 0) ≤ _
    split <;> omega
  · have hfalse : s.partIsSaved[index] = false := (saved_eq_getElem hlength).symm.trans hunsaved
    have hcount : (s.partIsSaved.set index true).count true = s.partIsSaved.count true + 1 := by
      rw [List.count_set hlength, hfalse]
      rfl
    change s.partsSaved + 1 = ((s.partIsSaved.set index true).count true : Nat)
    rw [hcount, h.partsSaved, Nat.cast_succ]
  · intro i
    change Call.writeResultPart (i * kPartSize) ∈ s.calls ++ [_] ↔
      (s.partIsSaved.set index true).getD i false = true
    rw [saved_set hlength, List.mem_append, List.mem_singleton, Call.writeResultPart.injEq,
      offset_inj, h.written i]
  · refine once_call h.once fun first hfirst => ⟨fun _ _ heq => (by cases heq), ?_, ?_⟩
    · intro offset hsame hsecond
      obtain rfl := Call.writeResultPart.inj hsecond
      rw [(h.written index).mp (hsame ▸ hfirst)] at hunsaved
      cases hunsaved
    · exact fun _ heq => by cases heq

theorem counted_new (size : Nat) : (new size).Counted where
  length := List.length_replicate
  next_le := Nat.zero_le _
  requested_lt := fun i hi => by cases hi
  covered := fun i hi => by cases hi
  partsRequested := by
    have hnone : (new size).waiting = ∅ := by
      refine Finset.eq_empty_of_forall_notMem fun i hi => ?_
      cases (mem_waiting.mp hi).2.1
    rw [hnone]
    rfl
  atMost := (by decide : (0 : Int) ≤ kRequestPartsCount)
  partsSaved := by
    symm
    exact Nat.cast_eq_zero.mpr (List.count_eq_zero_of_not_mem fun hmem =>
      Bool.false_ne_true (List.eq_of_mem_replicate hmem).symm)
  written := fun i => by
    refine iff_of_false (fun hi => by cases hi) fun hi => ?_
    rw [saved, new] at hi
    dsimp only at hi
    rw [List.getD_eq_getElem?_getD, List.getElem?_replicate] at hi
    split at hi <;> cases hi
  once := List.Pairwise.nil

/-! ## The whole download -/

/-- What holds before it is cancelled; a file without parts never finishes. -/
structure Loading (s : StreamedFileDownloader) : Prop where
  counted : s.Counted
  finalized : Call.finalizeResult ∈ s.calls ↔ s.finished = true
  finished : s.finished = true ↔ 0 < s.partsCount ∧ s.partsSaved = s.partsCount

/-- Its parts are those of the file. -/
def OfSize (size : Nat) (s : StreamedFileDownloader) : Prop :=
  s.size = size ∧ s.partsCount = (size + kPartSize - 1) / kPartSize

/-- The state of a download of `size` bytes: it is that file's, and counted until cancelled. -/
structure Downloading (size : Nat) (s : StreamedFileDownloader) : Prop where
  ofSize : OfSize size s
  loading : s.cancelled = false → Loading s

variable {size : Nat}

theorem Downloading.cancel (h : Downloading size s) : Downloading size s.cancel where
  ofSize := h.ofSize
  loading := fun heq => by cases heq

theorem Downloading.of_kept (h : Downloading size s) {s' : StreamedFileDownloader}
    (hkept : Kept s s') (hcounted : s.Counted → s'.Counted) : Downloading size s' where
  ofSize := ⟨hkept.size.trans h.ofSize.1, hkept.partsCount.trans h.ofSize.2⟩
  loading := fun heq => by
    have hloading := h.loading (hkept.cancelled.symm.trans heq)
    refine ⟨hcounted hloading.counted, ?_, ?_⟩
    · rw [hkept.finalized, hkept.finished]
      exact hloading.finalized
    · rw [hkept.finished, hkept.partsSaved, hkept.partsCount]
      exact hloading.finished

theorem Downloading.requestParts (h : Downloading size s) : Downloading size s.requestParts :=
  h.of_kept kept_requestParts Counted.requestParts

/-- A delivered part is one of the file's. -/
theorem exists_index {offset : Int} {written finalized : Bool}
    (h : Action.Delivered size (.part offset written finalized)) :
    ∃ index, offset = ((index * kPartSize : Nat) : Int) ∧
      index < (size + kPartSize - 1) / kPartSize := by
  obtain ⟨hge, hlt, hmod⟩ := h
  lift offset to Nat using hge
  have hdvd : kPartSize ∣ offset := Nat.dvd_of_mod_eq_zero (by exact_mod_cast hmod)
  obtain ⟨index, rfl⟩ := hdvd
  refine ⟨index, by rw [Nat.mul_comm], ?_⟩
  rw [Nat.lt_div_iff_mul_lt (by decide)]
  simp only [kPartSize] at *
  omega

/-- What a part leaves as it was. -/
theorem markSaved_call (c : Call) : ((s.markSaved index).call c).size = s.size ∧
    ((s.markSaved index).call c).partsCount = s.partsCount ∧
    ((s.markSaved index).call c).finished = s.finished ∧
    ((s.markSaved index).call c).calls = s.calls ++ [c] := by
  rw [markSaved_eq]
  exact ⟨rfl, rfl, rfl, rfl⟩

/-- **A delivered part is taken**, and keeps what is counted. -/
theorem Downloading.savePart (h : Downloading size s) {offset : Int} {written finalized : Bool}
    (hpart : Action.Delivered size (.part offset written finalized)) :
    ∃ s', s.savePart offset written finalized = some s' ∧ Downloading size s' := by
  have hexpects : ¬(¬(offset ≥ 0 ∧ offset < s.size) ∨ offset % kPartSize ≠ 0) := by
    rw [h.ofSize.1, not_or, not_not, not_not]
    exact ⟨⟨hpart.1, hpart.2.1⟩, hpart.2.2⟩
  obtain ⟨index, rfl, hindex⟩ := exists_index hpart
  rw [← h.ofSize.2] at hindex
  rw [StreamedFileDownloader.savePart, if_neg hexpects]
  dsimp only
  rw [Int.toNat_natCast, Nat.mul_div_cancel index (by decide)]
  split
  · exact ⟨s, rfl, h⟩
  next hrunning =>
  rw [Bool.or_eq_true, not_or, Bool.not_eq_true, Bool.not_eq_true] at hrunning
  obtain ⟨hfinished, hcancelled⟩ := hrunning
  have hloading := h.loading hcancelled
  rw [if_neg (not_le.mpr hindex)]
  split
  · exact ⟨s, rfl, h⟩
  next hunsaved =>
  have hsaved := hloading.counted.save hindex (Bool.not_eq_true _ ▸ hunsaved)
  obtain ⟨hsize, hcount, hnotFinished, hcalls⟩ :=
    @markSaved_call s index (.writeResultPart (index * kPartSize))
  generalize (s.markSaved index).call (.writeResultPart (index * kPartSize)) = s' at *
  have hofSize : OfSize size s' := ⟨hsize.trans h.ofSize.1, hcount.trans h.ofSize.2⟩
  have hnotCalled : Call.finalizeResult ∉ s'.calls := by
    rw [hcalls, List.mem_append, List.mem_singleton, hloading.finalized, hfinished]
    exact fun hmem => hmem.elim (fun heq => by cases heq) fun heq => by cases heq
  rw [hfinished] at hnotFinished
  split
  · -- the file does not take the data
    exact ⟨_, rfl, ⟨hofSize, fun heq => by cases heq⟩⟩
  have hkept : Kept s' (s'.call (.doneForDownloader (index * kPartSize))) :=
    kept_call _ fun heq => by cases heq
  have hdone := hsaved.call (.doneForDownloader (index * kPartSize))
    (fun _ heq => by cases heq) (fun _ heq => by cases heq) fun heq => by cases heq
  split
  · next hlast =>
    refine ⟨_, rfl, ?_⟩
    unfold finalizeResult
    dsimp only
    split
    · have hlast' := hdone.call .finalizeResult (fun _ heq => by cases heq)
        (fun _ heq => by cases heq) fun _ hmem => hnotCalled (hkept.finalized.mp hmem)
      refine ⟨hofSize, fun _ => ⟨{ hlast' with }, ?_, ?_⟩⟩
      · exact iff_of_true (List.mem_append_right _ (List.mem_singleton_self _)) rfl
      · exact iff_of_true rfl ⟨hcount ▸ Nat.zero_lt_of_lt hindex, hlast⟩
    · exact ⟨hofSize, fun heq => by cases heq⟩
  · next hmore =>
    refine ⟨_, rfl, Downloading.requestParts ⟨hofSize, fun _ => ⟨hdone, ?_, ?_⟩⟩⟩
    · exact iff_of_false (fun hmem => hnotCalled (hkept.finalized.mp hmem))
        fun heq => by
          rw [hkept.finished, hnotFinished] at heq
          cases heq
    · refine iff_of_false (fun heq => ?_) fun hall => hmore hall.2
      rw [hkept.finished, hnotFinished] at heq
      cases heq

theorem downloading_new (size : Nat) : Downloading size (new size) where
  ofSize := ⟨rfl, rfl⟩
  loading := fun _ => by
    refine ⟨counted_new size, iff_of_false (fun hmem => by cases hmem) (fun heq => by cases heq),
      iff_of_false (fun heq => by cases heq) ?_⟩
    rintro ⟨hpos, heq⟩
    change (0 : Int) = ((size + kPartSize - 1) / kPartSize : Nat) at heq
    exact absurd (Int.natCast_eq_zero.mp heq.symm) hpos.ne'

/-- Every action of the reader and of the player is taken. -/
theorem Downloading.act (h : Downloading size s) {a : Action} (ha : a.Delivered size) :
    ∃ s', s.act a = some s' ∧ Downloading size s' := by
  cases a with
  | requestParts => exact ⟨_, rfl, h.requestParts⟩
  | part offset written finalized => exact h.savePart ha
  | failedPart => exact ⟨_, rfl, h.cancel⟩
  | cancel => exact ⟨_, rfl, h.cancel⟩

/-- The downloads of a file. -/
def downloads (size : Nat) : System StreamedFileDownloader Action where
  init s := s = new size
  step s a s' := s.act a = some s'

theorem downloading_of_reached
    (h : (downloads size).Reached (fun _ a => a.Delivered size) s) : Downloading size s := by
  refine h.invariant (fun s hs => hs ▸ downloading_new size) fun s a s' hs ha hstep => ?_
  obtain ⟨s'', hact, hdone⟩ := hs.act ha
  exact Option.some.inj (hact.symm.trans hstep) ▸ hdone

theorem Counted.all_saved (h : s.Counted) :
    s.partsSaved = s.partsCount ↔
      ∀ i < s.partsCount, Call.writeResultPart (i * kPartSize) ∈ s.calls := by
  rw [h.partsSaved, Nat.cast_inj, ← h.length, List.count_eq_length]
  constructor
  · intro hall i hi
    rw [h.written, saved_eq_getElem hi]
    exact (hall _ (List.getElem_mem hi)).symm
  · intro hall part hpart
    obtain ⟨i, hi, rfl⟩ := List.getElem_of_mem hpart
    rw [← saved_eq_getElem hi]
    exact ((h.written i).mp (hall i hi)).symm

/-- **A streamed download saves every part once**: whatever parts come, in whatever order and
however often, none is refused, and until the download is cancelled the counters count the sets
of parts, no call is repeated, and the result is finalized when all parts are written. -/
theorem saved_once (h : (downloads size).Reached (fun _ a => a.Delivered size) s) :
    (∀ a : Action, a.Delivered size → ∃ s', s.act a = some s') ∧
      (s.cancelled = false →
        s.partsRequested = s.waiting.card ∧
        0 ≤ s.partsRequested ∧ s.partsRequested ≤ kRequestPartsCount ∧
        s.partsSaved = s.partIsSaved.count true ∧
        (∀ i, Call.writeResultPart (i * kPartSize) ∈ s.calls ↔ s.saved i = true) ∧
        s.calls.Pairwise Once ∧
        (Call.finalizeResult ∈ s.calls ↔ 0 < size ∧
          ∀ i < s.partsCount, Call.writeResultPart (i * kPartSize) ∈ s.calls)) := by
  have hdownloading := downloading_of_reached h
  refine ⟨fun a ha => ?_, fun hcancelled => ?_⟩
  · obtain ⟨s', hact, -⟩ := hdownloading.act ha
    exact ⟨s', hact⟩
  have hloading := hdownloading.loading hcancelled
  have hcounted := hloading.counted
  have hparts : 0 < s.partsCount ↔ 0 < size := by
    rw [hdownloading.ofSize.2, Nat.div_pos_iff]
    simp only [kPartSize]
    omega
  refine ⟨hcounted.partsRequested, ?_, hcounted.atMost, hcounted.partsSaved, hcounted.written,
    hcounted.once, ?_⟩
  · rw [hcounted.partsRequested]
    exact Int.natCast_nonneg _
  · rw [hloading.finalized, hloading.finished, hparts, hcounted.all_saved]

/-- A file of one part, that comes unasked. -/
theorem saved_once_unasked : ∃ s, (new 1000).savePart 0 true true = some s ∧
    s.partsRequested = s.waiting.card ∧ Call.finalizeResult ∈ s.calls := by
  have hdelivered : Action.Delivered 1000 (.part 0 true true) := by
    unfold Action.Delivered
    decide
  have hpart : ∃ s, (new 1000).savePart 0 true true = some s ∧ s.cancelled = false ∧
      Call.finalizeResult ∈ s.calls := ⟨_, rfl, rfl, by decide⟩
  obtain ⟨s, hpart, hcancelled, hfinalized⟩ := hpart
  have hreached : (downloads 1000).Reached (fun _ a => a.Delivered 1000) s :=
    .step (.init rfl) hdelivered hpart
  exact ⟨s, hpart, ((saved_once hreached).2 hcancelled).1, hfinalized⟩

end StreamedFileDownloader

end Storage

end MessengerClient
