import MessengerClient.FileLoader
import MessengerClient.Lib.Memory
import Mathlib.Data.List.Induction

/-!
# MessengerClient.FileLoader.Complete

A finished download is complete.  All bytes below `nextRequestOffset` are written
except for those of the parts still awaited (`Sound`), so when nothing is awaited
and the loader stops, by size or by a short last part, no byte is missing
(`finalizeResult_complete`).
-/

namespace MessengerClient

namespace Storage

namespace FileLoader

/-! ## Writing -/

/-- **A write puts the buffer at its offset** and leaves the rest. -/
structure WroteAt (content : Bytes) (offset : Nat) (buffer result : Bytes) : Prop where
  inside : ∀ i, offset ≤ i → i < offset + buffer.length → result[i]? = buffer[i - offset]?
  outside : ∀ i, i < content.length → ¬ (offset ≤ i ∧ i < offset + buffer.length) →
    result[i]? = content[i]?
  length : result.length = max content.length (offset + buffer.length)

theorem wroteAt_overwrite {content buffer fill : Bytes} {offset : Nat}
    (hlow : offset ≤ (content ++ fill).length)
    (hhigh : (content ++ fill).length ≤ max content.length (offset + buffer.length)) :
    WroteAt content offset buffer (paste (content ++ fill) offset buffer) := by
  refine ⟨fun i hlo hhi => ?_, fun i hi hout => ?_, ?_⟩
  · rw [getElem?_paste hlow, if_pos ⟨hlo, hhi⟩]
  · rw [getElem?_paste hlow, if_neg hout, List.getElem?_append_left hi]
  · have hlength : (content ++ fill).length = content.length + fill.length := List.length_append
    rw [paste, List.length_append, List.length_append, List.length_take, List.length_drop]
    omega

theorem wroteAt_file (file : Bytes) (offset : Nat) (buffer : Bytes) :
    WroteAt file offset buffer (fileWrite file offset buffer) := by
  refine wroteAt_overwrite ?_ ?_ <;> rw [List.length_append, List.length_replicate] <;> omega

theorem wroteAt_append {content buffer fill : Bytes} {offset : Nat}
    (h : offset = (content ++ fill).length) :
    WroteAt content offset buffer (content ++ fill ++ buffer) := by
  have hover : WroteAt content offset buffer _ :=
    wroteAt_overwrite h.le (by rw [← h]; omega)
  rwa [paste, h, List.take_length, List.drop_eq_nil_of_le (Nat.le_add_right ..), List.append_nil,
    ← h] at hover

theorem wroteAt_data (data : Bytes) (offset : Nat) (buffer : Bytes) (junk : UInt8) :
    WroteAt data offset buffer (dataWrite data offset buffer junk) := by
  unfold dataWrite grow
  dsimp only
  by_cases hgap : offset > data.length
  · rw [if_pos hgap]
    have hlength : offset = (data ++ List.replicate (offset - data.length) junk).length := by
      rw [List.length_append, List.length_replicate]
      omega
    rw [if_pos hlength]
    exact wroteAt_append hlength
  · rw [if_neg hgap]
    by_cases hend : offset = data.length
    · rw [if_pos hend]
      have happend : WroteAt data offset buffer (data ++ [] ++ buffer) :=
        wroteAt_append (by rwa [List.append_nil])
      rwa [List.append_nil] at happend
    · rw [if_neg hend]
      by_cases hlong : offset + buffer.length > data.length
      · rw [if_pos hlong]
        refine wroteAt_overwrite ?_ ?_ <;> rw [List.length_append, List.length_replicate] <;> omega
      · rw [if_neg hlong]
        have hover : WroteAt data offset buffer _ :=
          wroteAt_overwrite (show offset ≤ (data ++ []).length by rw [List.append_nil]; omega)
            (by rw [List.append_nil]; omega)
        rwa [List.append_nil] at hover

/-! ## What is written -/

variable {F : Bytes} {s : FileLoader}

/-- The answer to a request: the bytes of the file from `offset`, at most one part
of them and none past the end. -/
def part (F : Bytes) (offset : Nat) : Bytes := (F.drop offset).take kDownloadPartSize

/-- Byte `i` of the file was written at its own place. -/
def Covered (F : Bytes) (s : FileLoader) (i : Nat) : Prop :=
  ∃ w ∈ s.written, w.1 ≤ i ∧ i < w.1 + w.2.length ∧ w.2 = (F.drop w.1).take w.2.length

/-- Where the bytes are held. -/
def held (s : FileLoader) : Bytes := if s.fileIsOpen then s.file else s.data

/-- Nothing was asked for yet. -/
structure Untouched (s : FileLoader) : Prop where
  next : s.nextRequestOffset = 0
  sent : s.sentRequests = []
  data : s.data = []
  file : s.file = []
  queue : s.inQueue = false

/-- What holds while the loader is not finished: all bytes before
`nextRequestOffset` that are not `missing` are written and held. -/
structure Sound (F : Bytes) (missing : Nat → Prop) (s : FileLoader) : Prop where
  size : s.fullSize = 0 ∨ s.fullSize = F.length
  aligned : kDownloadPartSize ∣ s.nextRequestOffset
  sent : ∀ o ∈ s.sentRequests, o < s.nextRequestOffset ∧ kDownloadPartSize ∣ o
  nodup : s.sentRequests.Nodup
  requested : ∀ o ∈ s.requested, o < s.nextRequestOffset
  last : s.lastComplete = true → F.length ≤ s.nextRequestOffset
  written : ∀ i, i < s.nextRequestOffset → i < F.length → ¬ missing i → Covered F s i
  held : ∀ i, i < s.nextRequestOffset → i < F.length → ¬ missing i → s.held[i]? = F[i]?
  length : s.held.length ≤ F.length ∧ s.held.length ≤ s.nextRequestOffset
  opened : s.fileIsOpen = true → s.toCache = .LoadToFileOnly ∧ s.data = []
  closed : s.fileIsOpen = false → s.file = []
  unopened : s.hasFilename = true → s.toCache = .LoadToFileOnly → s.fileIsOpen = false →
    s.Untouched
  idle : s.localStatus = .NotTried ∨ s.localStatus = .Loading → s.Untouched

/-- Byte `i` is in a part still awaited. -/
def Awaited (s : FileLoader) (i : Nat) : Prop :=
  i / kDownloadPartSize * kDownloadPartSize ∈ s.sentRequests

/-- **A complete download**: every byte up to the size to load was written, or every
byte of the file if the size is not known. -/
def Complete (F : Bytes) (s : FileLoader) : Prop :=
  ∀ i, i < F.length → s.fullSize = 0 ∨ i < s.loadSize → Covered F s i

/-- What is held is the file, as far as it goes. -/
structure Prefix (F : Bytes) (s : FileLoader) : Prop where
  data : s.data = F.take s.data.length
  file : s.file = F.take s.file.length

/-- The invariant of a loader. -/
structure Valid (F : Bytes) (s : FileLoader) : Prop where
  requested : s.requested.Pairwise (· < ·)
  running : s.finished = false → s.Sound F s.Awaited ∧ s.finalized = false
  idle : s.finished = true → s.sentRequests = []
  holds : s.finished = true → s.Prefix F
  complete : s.finalized = true → s.Complete F

/-- A loader that has finished. -/
theorem Valid.done (hrequested : s.requested.Pairwise (· < ·)) (hfinished : s.finished = true)
    (hsent : s.sentRequests = []) (hfront : s.Prefix F)
    (hcomplete : s.finalized = true → s.Complete F) : s.Valid F where
  requested := hrequested
  running := fun hrun => absurd (hfinished.symm.trans hrun) (by decide)
  idle := fun _ => hsent
  holds := fun _ => hfront
  complete := hcomplete

theorem Valid.cancel (hrequested : s.requested.Pairwise (· < ·))
    (hfile : s.fileIsOpen = false → s.file = F.take s.file.length)
    (hcomplete : s.finalized = true → s.Complete F) : s.cancel.Valid F := by
  refine Valid.done hrequested rfl rfl ⟨rfl, ?_⟩ hcomplete
  show (if s.fileIsOpen then [] else s.file) = F.take (if s.fileIsOpen then [] else s.file).length
  split
  · rfl
  · next hclosed => exact hfile (Bool.eq_false_iff.mpr hclosed)

theorem eq_take_of_getElem? {content : Bytes} (h : ∀ i, i < content.length → content[i]? = F[i]?) :
    content = F.take content.length := by
  refine List.ext_getElem? fun i => ?_
  rw [List.getElem?_take]
  split
  · next hlt => exact h i hlt
  · next hge => exact List.getElem?_eq_none (not_lt.mp hge)

/-- The buffer as it is in the file. -/
theorem getElem?_buffer {buffer : Bytes} {offset i : Nat}
    (hbuffer : buffer = (F.drop offset).take buffer.length) (hlo : offset ≤ i)
    (hhi : i < offset + buffer.length) : buffer[i - offset]? = F[i]? := by
  rw [hbuffer, List.getElem?_take_of_lt (by omega), List.getElem?_drop]
  congr 1
  omega

theorem offset_add_length_le {buffer : Bytes} {offset : Nat}
    (hbuffer : buffer = (F.drop offset).take buffer.length) (hne : buffer ≠ []) :
    offset + buffer.length ≤ F.length := by
  have hpos := List.length_pos_iff.mpr hne
  have hlength := congrArg List.length hbuffer
  rw [List.length_take, List.length_drop] at hlength
  omega

/-- **One write** of bytes of the file takes them out of what is missing. -/
theorem Sound.write {missing : Nat → Prop} (h : s.Sound F missing) {buffer : Bytes} {offset : Nat}
    (hbuffer : buffer = (F.drop offset).take buffer.length) (hne : buffer ≠ [])
    (hinside : offset + buffer.length ≤ s.nextRequestOffset) {held' : Bytes} {skipped : Int}
    (hheld : WroteAt s.held offset buffer held') :
    Sound F (fun i => missing i ∧ ¬ (offset ≤ i ∧ i < offset + buffer.length))
      { s with
        skippedBytes := skipped
        file := if s.fileIsOpen then held' else s.file
        data := if s.fileIsOpen then s.data else held'
        written := s.written ++ [(offset, buffer)] } := by
  have hlong := offset_add_length_le hbuffer hne
  have hpos := List.length_pos_iff.mpr hne
  have hnot : ¬ s.Untouched := fun hu => by
    have h0 := hu.next
    omega
  have hsame : ({ s with
      skippedBytes := skipped
      file := if s.fileIsOpen then held' else s.file
      data := if s.fileIsOpen then s.data else held'
      written := s.written ++ [(offset, buffer)] } : FileLoader).held = held' := by
    unfold FileLoader.held
    cases s.fileIsOpen <;> rfl
  exact
    { size := h.size
      aligned := h.aligned
      sent := h.sent
      nodup := h.nodup
      requested := h.requested
      last := h.last
      written := fun i hi hlt hmissing => by
        by_cases hin : offset ≤ i ∧ i < offset + buffer.length
        · exact ⟨(offset, buffer), List.mem_append_right _ List.mem_cons_self, hin.1, hin.2, hbuffer⟩
        · obtain ⟨w, hw, hcover⟩ := h.written i hi hlt fun hm => hmissing ⟨hm, hin⟩
          exact ⟨w, List.mem_append_left _ hw, hcover⟩
      held := fun i hi hlt hmissing => by
        rw [hsame]
        by_cases hin : offset ≤ i ∧ i < offset + buffer.length
        · rw [hheld.inside i hin.1 hin.2, getElem?_buffer hbuffer hin.1 hin.2]
        · have hold := h.held i hi hlt fun hm => hmissing ⟨hm, hin⟩
          have hlength : i < s.held.length := by
            by_contra hge
            rw [List.getElem?_eq_none (not_lt.mp hge), List.getElem?_eq_getElem hlt] at hold
            cases hold
          rw [hheld.outside i hlength hin, hold]
      length := by
        obtain ⟨hfile, hnext⟩ := h.length
        rw [hsame, hheld.length]
        exact ⟨max_le hfile hlong, max_le hnext hinside⟩
      opened := fun hopen => by
        obtain ⟨hcache, hdata⟩ := h.opened hopen
        exact ⟨hcache, (if_pos hopen).trans hdata⟩
      closed := fun hclosed => by
        have hnopen : ¬ s.fileIsOpen = true := Bool.eq_false_iff.mp hclosed
        exact (if_neg hnopen).trans (h.closed hclosed)
      unopened := fun hname hcache hclosed => absurd (h.unopened hname hcache hclosed) hnot
      idle := fun hidle => absurd (h.idle hidle) hnot }

/-- What is missing may be said in another way. -/
theorem Sound.mono {missing missing' : Nat → Prop} (h : s.Sound F missing)
    (hsub : ∀ i, i < s.nextRequestOffset → i < F.length → ¬ missing' i → ¬ missing i) :
    s.Sound F missing' :=
  { h with
    written := fun i hi hlt hm => h.written i hi hlt (hsub i hi hlt hm)
    held := fun i hi hlt hm => h.held i hi hlt (hsub i hi hlt hm) }

/-! ## One part -/

/-- **`writeResultPart`** for a buffer of the file: it fails with the whole download,
or the buffer is not missing any more. -/
theorem writeResultPart_cases {missing : Nat → Prop} (h : s.Sound F missing)
    (hrun : s.finished = false) (io : Io) {buffer : Bytes} {offset : Nat}
    (hbuffer : buffer = (F.drop offset).take buffer.length)
    (hinside : buffer ≠ [] → offset + buffer.length ≤ s.nextRequestOffset) :
    (∃ skipped, s.writeResultPart io offset buffer =
      some (false, { s with skippedBytes := skipped }.cancel)) ∨
    ∃ skipped file data written, s.writeResultPart io offset buffer = some (true, { s with
        skippedBytes := skipped, file := file, data := data, written := written }) ∧
      Sound F (fun i => missing i ∧ ¬ (offset ≤ i ∧ i < offset + buffer.length)) { s with
        skippedBytes := skipped, file := file, data := data, written := written } := by
  unfold writeResultPart
  rw [if_neg (Bool.eq_false_iff.mp hrun)]
  by_cases hempty : buffer = []
  · rw [if_pos (List.isEmpty_iff.mpr hempty)]
    refine .inr ⟨s.skippedBytes, s.file, s.data, s.written, rfl, h.mono fun i _ _ hm hmi => ?_⟩
    refine hm ⟨hmi, fun hin => ?_⟩
    rw [hempty, List.length_nil] at hin
    omega
  · rw [if_neg (mt List.isEmpty_iff.mp hempty)]
    by_cases hopen : s.fileIsOpen = true
    · rw [if_pos hopen]
      by_cases hwrites : io.writes = true
      · have hwrote : WroteAt s.held offset buffer (fileWrite s.file offset buffer) := by
          rw [FileLoader.held, if_pos hopen]
          exact wroteAt_file ..
        have hsound : Sound F _ { s with
            skippedBytes := s.skippedBytes + skippedDelta s.file.length offset buffer
            file := _
            data := _
            written := _ } :=
          h.write hbuffer hempty (hinside hempty) hwrote
        simp only [if_pos hopen] at hsound
        exact .inr ⟨_, _, _, _, if_pos hwrites, hsound⟩
      · exact .inl ⟨_, if_neg hwrites⟩
    · rw [if_neg hopen]
      have hwrote : WroteAt s.held offset buffer (dataWrite s.data offset buffer io.junk) := by
        rw [FileLoader.held, if_neg hopen]
        exact wroteAt_data ..
      have hsound : Sound F _ { s with
          skippedBytes := s.skippedBytes + skippedDelta s.data.length offset buffer
          file := _
          data := _
          written := _ } :=
        h.write hbuffer hempty (hinside hempty) hwrote
      simp only [if_neg hopen] at hsound
      exact .inr ⟨_, _, _, _, rfl, hsound⟩

theorem Sound.unqueue {missing : Nat → Prop} (h : s.Sound F missing) :
    Sound F missing { s with inQueue := false } :=
  { h with
    unopened := fun hname hcache hclosed =>
      { h.unopened hname hcache hclosed with queue := rfl }
    idle := fun hidle => { h.idle hidle with queue := rfl } }

theorem Sound.lastPart {missing : Nat → Prop} (h : s.Sound F missing)
    (hend : F.length ≤ s.nextRequestOffset) : Sound F missing { s with lastComplete := true } :=
  { h with
    last := fun _ => hend
    unopened := fun hname hcache hclosed => { h.unopened hname hcache hclosed with }
    idle := fun hidle => { h.idle hidle with } }

/-- **`writeAtEnd`**: only a loader to a file has it open before, so the file is
written as a whole or not at all. -/
theorem writeAtEnd_cases (hopened : s.fileIsOpen = true → s.toCache = .LoadToFileOnly)
    (hclosed : s.fileIsOpen = false → s.file = []) (io : Io) :
    (∃ isOpen, s.writeAtEnd io = (false, { s with fileIsOpen := isOpen, file := [] })) ∨
    ∃ isOpen file, s.writeAtEnd io = (true, { s with fileIsOpen := isOpen, file := file }) ∧
      (file = s.file ∨ file = s.data) := by
  unfold writeAtEnd
  split
  · next hstore =>
    rw [Bool.and_eq_true, decide_eq_true_eq] at hstore
    have hopen : s.fileIsOpen = false := by
      refine Bool.eq_false_iff.mpr fun hopen => ?_
      have hcache := (hopened hopen).symm.trans hstore.2
      cases hcache
    have hfile := hclosed hopen
    have hsame : s = { s with fileIsOpen := false, file := [] } := by rw [← hopen, ← hfile]
    unfold writeWhole
    rw [hopen, Bool.not_false, Bool.true_and]
    cases hopens : io.opens with
    | false => exact .inl ⟨false, congrArg (Prod.mk false) hsame⟩
    | true =>
      cases hwrites : io.writes with
      | false => exact .inl ⟨true, rfl⟩
      | true =>
        refine .inr ⟨true, fileWrite [] 0 s.data, rfl, .inr ?_⟩
        simp [fileWrite]
  · exact .inr ⟨s.fileIsOpen, s.file, rfl, .inl rfl⟩

/-- **`finalizeResult`** when nothing is missing. -/
theorem finalizeResult_valid (h : s.Sound F fun _ => False) (hrun : s.finished = false)
    (hrequested : s.requested.Pairwise (· < ·)) (hsent : s.sentRequests = [])
    (hstop : F.length ≤ s.nextRequestOffset ∨
      s.fullSize ≠ 0 ∧ s.loadSize ≤ s.nextRequestOffset) (io : Io) :
    ∃ b s', s.finalizeResult io = some (b, s') ∧ s'.Valid F ∧ s'.finished = true := by
  have hcomplete : s.Complete F := by
    intro i hi hload
    refine h.written i ?_ hi not_false
    rcases hstop with hend | ⟨hfull, hnext⟩
    · exact lt_of_lt_of_le hi hend
    · have hlt := hload.resolve_left hfull
      omega
  have hfront : s.Prefix F := by
    have hheld : s.held = F.take s.held.length := by
      obtain ⟨hfile, hnext⟩ := h.length
      exact eq_take_of_getElem? fun i hi => h.held i (by omega) (by omega) not_false
    unfold FileLoader.held at hheld
    split at hheld
    · next hopen => exact ⟨by rw [(h.opened hopen).2]; rfl, hheld⟩
    · next hclosed => exact ⟨hheld, by rw [h.closed (Bool.eq_false_iff.mpr hclosed)]; rfl⟩
  unfold finalizeResult
  rw [if_neg (Bool.eq_false_iff.mp hrun)]
  obtain ⟨isOpen, heq⟩ | ⟨isOpen, file, heq, hfile⟩ :=
    writeAtEnd_cases (s := { s with finalized := true }) (fun hopen => (h.opened hopen).1) h.closed io
  · rw [heq]
    exact ⟨_, _, rfl, Valid.cancel hrequested (fun _ => rfl) fun _ => hcomplete, rfl⟩
  · rw [heq]
    refine ⟨_, _, rfl, Valid.done hrequested rfl hsent ⟨hfront.data, ?_⟩ fun _ => hcomplete, rfl⟩
    obtain rfl | rfl := hfile
    · exact hfront.file
    · exact hfront.data

/-- What `feedPart` does once the buffer is written. -/
def afterWrite (s : FileLoader) (io : Io) (buffer : Bytes) : Option (Bool × FileLoader) :=
  let s := if buffer.isEmpty || buffer.length % 1024 ≠ 0 then { s with lastComplete := true } else s
  let finished := !s.haveSentRequests &&
    (s.lastComplete || (s.fullSize ≠ 0 && s.nextRequestOffset ≥ s.loadSize))
  if finished then { s with inQueue := false }.finalizeResult io else some (true, s)

theorem feedPart_eq {s s₁ : FileLoader} {io : Io} {offset : Nat} {buffer : Bytes}
    (h : s.writeResultPart io offset buffer = some (true, s₁)) :
    s.feedPart io offset buffer = s₁.afterWrite io buffer := by
  rw [feedPart, h]
  rfl

/-- The loader goes on from where it was, unless it has finished. -/
def GoesOn (F : Bytes) (s s' : FileLoader) : Prop :=
  s'.Valid F ∧ (s'.finished = false → s'.nextRequestOffset = s.nextRequestOffset)

/-- Finishes if nothing is awaited and the end was reached. -/
theorem stop_valid (h : s.Sound F s.Awaited) (hrun : s.finished = false)
    (hfinalized : s.finalized = false) (hrequested : s.requested.Pairwise (· < ·)) (io : Io) :
    ∃ b s', (if !s.haveSentRequests &&
        (s.lastComplete || (decide (s.fullSize ≠ 0) && decide (s.nextRequestOffset ≥ s.loadSize)))
      then { s with inQueue := false }.finalizeResult io else some (true, s)) = some (b, s') ∧
      GoesOn F s s' := by
  split
  · next hstop =>
    rw [Bool.and_eq_true, haveSentRequests, Bool.not_not, List.isEmpty_iff, Bool.or_eq_true,
      Bool.and_eq_true, decide_eq_true_eq, decide_eq_true_eq] at hstop
    obtain ⟨hnone, hend⟩ := hstop
    have hempty : s.Sound F fun _ => False := h.mono fun i _ _ _ hmissing => by
      rw [Awaited, hnone] at hmissing
      exact List.not_mem_nil hmissing
    obtain ⟨b, s', heq, hvalid, hdone⟩ :=
      finalizeResult_valid hempty.unqueue hrun hrequested hnone (hend.imp_left h.last) io
    exact ⟨b, s', heq, hvalid, fun hgo => absurd (hdone.symm.trans hgo) (by decide)⟩
  · next hgo =>
    exact ⟨_, _, rfl,
      { requested := hrequested
        running := fun _ => ⟨h, hfinalized⟩
        idle := fun hdone => absurd (hrun.symm.trans hdone) (by decide)
        holds := fun hdone => absurd (hrun.symm.trans hdone) (by decide)
        complete := fun hdone => absurd (hfinalized.symm.trans hdone) (by decide) }, fun _ => rfl⟩

theorem afterWrite_valid (h : s.Sound F s.Awaited) (hrun : s.finished = false)
    (hfinalized : s.finalized = false) (hrequested : s.requested.Pairwise (· < ·)) (io : Io)
    {buffer : Bytes}
    (hlast : buffer = [] ∨ buffer.length % 1024 ≠ 0 → F.length ≤ s.nextRequestOffset) :
    ∃ b s', s.afterWrite io buffer = some (b, s') ∧ GoesOn F s s' := by
  unfold afterWrite
  by_cases hshort : (buffer.isEmpty || decide (buffer.length % 1024 ≠ 0)) = true
  · rw [if_pos hshort]
    rw [Bool.or_eq_true, List.isEmpty_iff, decide_eq_true_eq] at hshort
    have hsound : Sound F (Awaited { s with lastComplete := true }) { s with lastComplete := true } :=
      h.lastPart (hlast hshort)
    exact stop_valid hsound hrun hfinalized hrequested io
  · rw [if_neg hshort]
    exact stop_valid h hrun hfinalized hrequested io

/-- **`feedPart`** of bytes of the file: afterwards only the parts still awaited are
missing, or the loader has finished, with nothing missing. -/
theorem feedPart_valid {missing : Nat → Prop} (h : s.Sound F missing) (hrun : s.finished = false)
    (hfinalized : s.finalized = false) (hrequested : s.requested.Pairwise (· < ·)) (io : Io)
    {buffer : Bytes} {offset : Nat} (hbuffer : buffer = (F.drop offset).take buffer.length)
    (hinside : buffer ≠ [] → offset + buffer.length ≤ s.nextRequestOffset)
    (hmissing : ∀ i, i < s.nextRequestOffset → i < F.length → missing i →
      ¬ (offset ≤ i ∧ i < offset + buffer.length) → s.Awaited i)
    (hlast : buffer = [] ∨ buffer.length % 1024 ≠ 0 → F.length ≤ s.nextRequestOffset) :
    ∃ b s', s.feedPart io offset buffer = some (b, s') ∧ GoesOn F s s' := by
  obtain ⟨skipped, heq⟩ | ⟨skipped, file, data, written, heq, hsound⟩ :=
    writeResultPart_cases h hrun io hbuffer hinside
  · rw [feedPart, heq]
    have hclosed : s.fileIsOpen = false → s.file = F.take s.file.length := fun hopen => by
      rw [h.closed hopen]
      rfl
    refine ⟨_, _, rfl, Valid.cancel hrequested hclosed fun hdone => ?_, fun _ => rfl⟩
    exact absurd (hfinalized.symm.trans hdone) (by decide)
  · rw [feedPart_eq heq]
    have hawaited : Sound F (Awaited { s with
        skippedBytes := skipped, file := file, data := data, written := written }) _ :=
      hsound.mono fun i hi hlt hnot hmiss => hnot (hmissing i hi hlt hmiss.1 hmiss.2)
    exact afterWrite_valid hawaited hrun hfinalized hrequested io hlast

/-! ## Requests and answers -/

theorem part_take (F : Bytes) (offset : Nat) :
    part F offset = (F.drop offset).take (part F offset).length := by
  rw [part, List.take_eq_take_iff, List.length_take, min_assoc, min_self]

theorem length_part (F : Bytes) (offset : Nat) :
    (part F offset).length = min kDownloadPartSize (F.length - offset) := by
  rw [part, List.length_take, List.length_drop]

theorem kDownloadPartSize_pos : 0 < kDownloadPartSize := by decide

theorem div_mul_of_lt {i next : Nat} (hdvd : kDownloadPartSize ∣ next) (hlo : next ≤ i)
    (hhi : i < next + kDownloadPartSize) :
    i / kDownloadPartSize * kDownloadPartSize = next := by
  obtain ⟨c, rfl⟩ := hdvd
  rw [Nat.mul_comm kDownloadPartSize c] at *
  congr 1
  exact Nat.div_eq_of_lt_le hlo (by rw [Nat.succ_mul]; exact hhi)

/-- **`loadPart`** asks for an offset not asked for before. -/
theorem loadPart_valid (h : s.Valid F) (hqueue : s.inQueue = true)
    (hready : s.readyToRequest = true) : ∃ s', s.loadPart = some s' ∧ s'.Valid F := by
  have hrun : s.finished = false ∧ s.lastComplete = false := by
    simp only [readyToRequest, Bool.and_eq_true, Bool.not_eq_true'] at hready
    exact hready.1.1
  obtain ⟨hsound, hfinalized⟩ := h.running hrun.1
  have hnot : ¬ s.Untouched := fun hu => absurd (hqueue.symm.trans hu.queue) (by decide)
  unfold loadPart takeNextRequestOffset
  rw [if_pos hready]
  refine ⟨_, rfl, ?_, fun _ => ⟨?_, hfinalized⟩,
    fun hdone => absurd (hrun.1.symm.trans hdone) (by decide),
    fun hdone => absurd (hrun.1.symm.trans hdone) (by decide),
    fun hdone => absurd (hfinalized.symm.trans hdone) (by decide)⟩
  · refine List.pairwise_append.mpr ⟨h.requested, List.pairwise_singleton .., fun a ha b hb => ?_⟩
    rw [List.mem_singleton.mp hb]
    exact hsound.requested a ha
  · have hpos := kDownloadPartSize_pos
    have hold : ∀ i, i < s.nextRequestOffset + kDownloadPartSize → i < F.length →
        ¬ i / kDownloadPartSize * kDownloadPartSize ∈ s.sentRequests ++ [s.nextRequestOffset] →
        i < s.nextRequestOffset ∧ ¬ s.Awaited i := by
      intro i hi _ hnew
      rw [List.mem_append, List.mem_singleton, not_or] at hnew
      refine ⟨?_, hnew.1⟩
      by_contra hge
      exact hnew.2 (div_mul_of_lt hsound.aligned (not_lt.mp hge) hi)
    exact
      { size := hsound.size
        aligned := Nat.dvd_add hsound.aligned (Nat.dvd_refl _)
        sent := fun o ho => by
          show o < s.nextRequestOffset + kDownloadPartSize ∧ _
          rcases List.mem_append.mp ho with ho | ho
          · obtain ⟨hlt, hdvd⟩ := hsound.sent o ho
            exact ⟨by omega, hdvd⟩
          · rw [List.mem_singleton.mp ho]
            exact ⟨by omega, hsound.aligned⟩
        nodup := by
          refine List.nodup_append.mpr ⟨hsound.nodup, List.pairwise_singleton .., fun a ha b hb => ?_⟩
          have hlt := (hsound.sent a ha).1
          rw [List.mem_singleton.mp hb]
          omega
        requested := fun o ho => by
          show o < s.nextRequestOffset + kDownloadPartSize
          rcases List.mem_append.mp ho with ho | ho
          · have hlt := hsound.requested o ho
            omega
          · rw [List.mem_singleton.mp ho]
            omega
        last := fun hlast => absurd (hrun.2.symm.trans hlast) (by decide)
        written := fun i hi hlt hnew =>
          hsound.written i (hold i hi hlt hnew).1 hlt (hold i hi hlt hnew).2
        held := fun i hi hlt hnew => hsound.held i (hold i hi hlt hnew).1 hlt (hold i hi hlt hnew).2
        length := ⟨hsound.length.1, Nat.le_add_right_of_le hsound.length.2⟩
        opened := hsound.opened
        closed := hsound.closed
        unopened := fun hname hcache hclosed => absurd (hsound.unopened hname hcache hclosed) hnot
        idle := fun hidle => absurd (hsound.idle hidle) hnot }

/-- The answered request is out of those sent, and its part is missing. -/
theorem Sound.answered (h : s.Sound F s.Awaited) (offset : Nat) :
    Sound F s.Awaited { s with sentRequests := s.sentRequests.erase offset } :=
  { h with
    sent := fun o ho => h.sent o (List.mem_of_mem_erase ho)
    nodup := h.nodup.erase offset
    unopened := fun hname hcache hclosed => by
      obtain hu := h.unopened hname hcache hclosed
      exact { hu with sent := by rw [hu.sent]; rfl }
    idle := fun hidle => by
      obtain hu := h.idle hidle
      exact { hu with sent := by rw [hu.sent]; rfl } }

/-- The size of the file is told. -/
theorem Sound.setSize {missing : Nat → Prop} (h : s.Sound F missing) {size : Int}
    (hsize : size = F.length) :
    Sound F missing { s with fullSize := size, loadSize := size } :=
  { h with
    size := .inr hsize
    unopened := fun hname hcache hclosed => { h.unopened hname hcache hclosed with }
    idle := fun hidle => { h.idle hidle with } }

/-- **An answer** takes its part out of what is awaited. -/
theorem partLoaded_valid (h : s.Valid F) (io : Io) {offset : Nat} (hoffset : offset ∈ s.sentRequests)
    {size : Option Int} (hsize : ∀ n ∈ size, n = F.length) :
    ∃ s', s.partLoaded io offset (part F offset) size = some s' ∧ s'.Valid F := by
  have hrun : s.finished = false := by
    refine Bool.eq_false_iff.mpr fun hdone => ?_
    rw [h.idle hdone] at hoffset
    cases hoffset
  obtain ⟨hsound, hfinalized⟩ := h.running hrun
  obtain ⟨hlt, hdvd⟩ := hsound.sent offset hoffset
  have hnext : offset + kDownloadPartSize ≤ s.nextRequestOffset := by
    obtain ⟨⟨a, ha⟩, b, hb⟩ := And.intro hdvd hsound.aligned
    rw [ha, hb] at hlt ⊢
    have hab : a < b := Nat.lt_of_mul_lt_mul_left hlt
    calc kDownloadPartSize * a + kDownloadPartSize = kDownloadPartSize * (a + 1) := by
          rw [Nat.mul_add, Nat.mul_one]
      _ ≤ kDownloadPartSize * b := Nat.mul_le_mul_left _ hab
  have hlength := length_part F offset
  have hpos := kDownloadPartSize_pos
  have hfeed : ∀ s₁ : FileLoader, Sound F s.Awaited s₁ → s₁.finished = false →
      s₁.finalized = false → s₁.requested.Pairwise (· < ·) →
      s₁.nextRequestOffset = s.nextRequestOffset →
      s₁.sentRequests = s.sentRequests.erase offset →
      ∃ s', (s₁.feedPart io offset (part F offset)).map Prod.snd = some s' ∧ s'.Valid F := by
    intro s₁ hsound₁ hrun₁ hfinalized₁ hrequested₁ hnext₁ hsent₁
    have hmissing : ∀ i, i < s₁.nextRequestOffset → i < F.length → s.Awaited i →
        ¬ (offset ≤ i ∧ i < offset + (part F offset).length) → s₁.Awaited i := by
      -- A byte of the answered part is in the answer.
      intro i _ hi hawaited hout
      rw [Awaited, hsent₁]
      refine (List.mem_erase_of_ne fun hsame => hout ?_).mpr hawaited
      have hlo : offset ≤ i := hsame ▸ Nat.div_mul_le_self i kDownloadPartSize
      have hhi := Nat.lt_div_mul_add (a := i) hpos
      omega
    have hlast : part F offset = [] ∨ (part F offset).length % 1024 ≠ 0 →
        F.length ≤ s₁.nextRequestOffset := by
      intro hend
      rw [hnext₁]
      rcases hend with hnil | hrest
      · have hzero := congrArg List.length hnil
        rw [List.length_nil] at hzero
        omega
      · have hwhole : kDownloadPartSize % 1024 = 0 := by decide
        rcases Nat.lt_or_ge (F.length - offset) kDownloadPartSize with hshort | hfull
        · omega
        · rw [Nat.min_eq_left hfull] at hlength
          exact absurd (hlength ▸ hwhole) hrest
    obtain ⟨b, s', heq, hvalid, -⟩ := feedPart_valid hsound₁ hrun₁ hfinalized₁ hrequested₁ io
      (part_take F offset) (fun _ => by omega) hmissing hlast
    exact ⟨s', by rw [heq]; rfl, hvalid⟩
  cases size with
  | none => exact hfeed _ (hsound.answered offset) hrun hfinalized h.requested rfl rfl
  | some size =>
    have hn := hsize size rfl
    have hmatch : s.fullSize = 0 ∨ s.fullSize = size := by
      rw [hn]
      exact hsound.size
    have hset : ({ s with sentRequests := s.sentRequests.erase offset } :
        FileLoader).setWebFileSizeHook size = (true, { s with
          sentRequests := s.sentRequests.erase offset, fullSize := size, loadSize := size }) :=
      if_pos hmatch
    rw [partLoaded, hset]
    exact hfeed _ ((hsound.answered offset).setSize hn) hrun hfinalized h.requested rfl rfl

/-! ## Starting -/

theorem increaseLoadSize_valid (h : s.Valid F) (hrun : s.finished = false) {size : Int}
    (hmore : s.loadSize < size) (hle : size ≤ s.fullSize) (autoLoading : Bool) :
    ∃ s', s.increaseLoadSize size autoLoading = some s' ∧ s'.Valid F := by
  obtain ⟨hsound, hfinalized⟩ := h.running hrun
  have hsound' : Sound F s.Awaited { s with loadSize := size, autoLoading := autoLoading } :=
    { hsound with
      unopened := fun hname hcache hclosed => { hsound.unopened hname hcache hclosed with }
      idle := fun hidle => { hsound.idle hidle with } }
  rw [increaseLoadSize, if_neg (not_le.mpr hmore), if_neg (not_lt.mpr hle)]
  exact ⟨_, rfl,
    { requested := h.requested
      running := fun _ => ⟨hsound', hfinalized⟩
      idle := h.idle
      holds := fun hdone => absurd (hrun.symm.trans hdone) (by decide)
      complete := fun hdone => absurd (hfinalized.symm.trans hdone) (by decide) }⟩

/-- The file is open if it has to be. -/
def Opened (s : FileLoader) : Prop :=
  s.hasFilename = true → s.toCache = .LoadToFileOnly → s.fileIsOpen = true

/-- **`checkForOpen`** cancels, or opens the file if it has to be open. -/
theorem checkForOpen_cases {missing : Nat → Prop} (h : s.Sound F missing) (io : Io) :
    (s.fileIsOpen = false ∧ s.checkForOpen io = (false, s.cancel)) ∨
    ∃ isOpen file, s.checkForOpen io = (true, { s with fileIsOpen := isOpen, file := file }) ∧
      Sound F missing { s with fileIsOpen := isOpen, file := file } ∧
      Opened { s with fileIsOpen := isOpen, file := file } ∧
      (s.Untouched → Untouched { s with fileIsOpen := isOpen, file := file }) := by
  unfold checkForOpen
  split
  · next hskip =>
    refine .inr ⟨s.fileIsOpen, s.file, rfl, h, fun hname hcache => ?_, id⟩
    change s.hasFilename = true at hname
    change s.toCache = .LoadToFileOnly at hcache
    rw [hname, hcache] at hskip
    simpa using hskip
  · next hopen =>
    rw [Bool.not_eq_true, Bool.or_eq_false_iff, Bool.or_eq_false_iff, Bool.not_eq_false',
      decide_eq_false_iff_not, not_not] at hopen
    obtain ⟨⟨hname, hcache⟩, hclosed⟩ := hopen
    split
    · have hu := h.unopened hname hcache hclosed
      have hu' : Untouched { s with fileIsOpen := true, file := [] } := { hu with file := rfl }
      refine .inr ⟨true, [], rfl, ?_, fun _ _ => rfl, fun _ => hu'⟩
      have hnone : ∀ i, ¬ i < s.nextRequestOffset := fun i => by
        rw [hu.next]
        exact Nat.not_lt_zero i
      exact
        { size := h.size
          aligned := h.aligned
          sent := h.sent
          nodup := h.nodup
          requested := h.requested
          last := h.last
          written := fun i hi => absurd hi (hnone i)
          held := fun i hi => absurd hi (hnone i)
          length := ⟨Nat.zero_le _, Nat.zero_le _⟩
          opened := fun _ => ⟨hcache, hu.data⟩
          closed := fun hc => absurd hc Bool.noConfusion
          unopened := fun _ _ hc => absurd hc Bool.noConfusion
          idle := fun _ => hu' }
    · exact .inl ⟨hclosed, rfl⟩

/-- The local value is not waited for any more. -/
def Answered (s : FileLoader) : Prop := ¬ (s.localStatus = .NotTried ∨ s.localStatus = .Loading)

/-- A loader in the queue. -/
theorem startLoading_valid (h : s.Valid F)
    (hopened : s.finished = false → s.nextRequestOffset ≠ 0 ∨ s.Opened ∧ s.Answered) :
    s.startLoading.Valid F := by
  refine { h with running := fun hrun => ?_, holds := fun hdone => { h.holds hdone with } }
  obtain ⟨hsound, hfinalized⟩ := h.running hrun
  refine ⟨{ hsound with unopened := ?_, idle := ?_ }, hfinalized⟩
  · intro hname hcache hclosed
    rcases hopened hrun with hnext | ⟨hopen, -⟩
    · exact absurd (hsound.unopened hname hcache hclosed).next hnext
    · exact absurd ((hopen hname hcache).symm.trans hclosed) (by decide)
  · intro hidle
    rcases hopened hrun with hnext | ⟨-, hstatus⟩
    · exact absurd (hsound.idle hidle).next hnext
    · exact absurd hidle hstatus

theorem Valid.running_of (hsound : s.Sound F s.Awaited) (hrun : s.finished = false)
    (hfinalized : s.finalized = false) (hrequested : s.requested.Pairwise (· < ·)) : s.Valid F where
  requested := hrequested
  running := fun _ => ⟨hsound, hfinalized⟩
  idle := fun hdone => absurd (hrun.symm.trans hdone) (by decide)
  holds := fun hdone => absurd (hrun.symm.trans hdone) (by decide)
  complete := fun hdone => absurd (hfinalized.symm.trans hdone) (by decide)

theorem Valid.cancel_of (h : s.Valid F) : s.cancel.Valid F := by
  refine Valid.cancel h.requested (fun hclosed => ?_) h.complete
  cases hrun : s.finished with
  | true => exact (h.holds hrun).file
  | false =>
    rw [(h.running hrun).1.closed hclosed]
    rfl

/-- The local value of an untouched loader is being asked for, or answered. -/
theorem Sound.setStatus {missing : Nat → Prop} (h : s.Sound F missing) {status : LocalStatus}
    (hidle : status = .NotTried ∨ status = .Loading → s.Untouched) :
    Sound F missing { s with localStatus := status } :=
  { h with
    unopened := fun hname hcache hclosed => { h.unopened hname hcache hclosed with }
    idle := fun hstatus => { hidle hstatus with } }

theorem answered_notFound : Answered { s with localStatus := .NotFound } := fun hidle => by
  rcases hidle with hidle | hidle <;> cases hidle

theorem Sound.notFound (h : s.Sound F s.Awaited) :
    Sound F (Awaited { s with localStatus := .NotFound }) { s with localStatus := .NotFound } :=
  h.setStatus fun hidle => absurd hidle (answered_notFound (s := s))

/-- Goes to the cloud. -/
theorem cloud_valid (h : s.Valid F) (hrun : s.finished = false) (hstatus : s.Answered) (io : Io) :
    Valid F (if s.fromCloud = .LoadFromLocalOnly then s.cancel
      else match s.checkForOpen io with
        | (true, s) => s.startLoading
        | (false, s) => s) := by
  split
  · exact h.cancel_of
  · obtain ⟨hsound, hfinalized⟩ := h.running hrun
    obtain ⟨-, heq⟩ | ⟨isOpen, file, heq, hopen, hopened, -⟩ := checkForOpen_cases hsound io
    · rw [heq]
      exact h.cancel_of
    · rw [heq]
      have hvalid : Valid F { s with fileIsOpen := isOpen, file := file } :=
        Valid.running_of hopen hrun hfinalized h.requested
      exact startLoading_valid hvalid fun _ => .inr ⟨hopened, hstatus⟩

theorem start_valid (h : s.Valid F) (io : Io) : (s.start io).Valid F := by
  unfold start
  split
  · exact h
  · next hgo =>
    have hrun := Bool.eq_false_iff.mpr hgo
    obtain ⟨hsound, hfinalized⟩ := h.running hrun
    unfold tryLoadLocal
    cases hstatus : s.localStatus with
    | NotFound => exact cloud_valid h hrun (by rw [Answered, hstatus]; decide) io
    | Loaded => exact cloud_valid h hrun (by rw [Answered, hstatus]; decide) io
    | Loading => exact h
    | NotTried =>
      by_cases hkey : s.toCache = .LoadToCacheAsWell ∧ s.hasCacheKey = true
      · have hloading : Sound F s.Awaited { s with localStatus := .Loading } :=
          hsound.setStatus fun _ => hsound.idle (.inl hstatus)
        simp only [if_pos hkey]
        exact Valid.running_of hloading hrun hfinalized h.requested
      · have hvalid := Valid.running_of (hsound.notFound) hrun hfinalized h.requested
        simp only [if_neg hkey]
        exact cloud_valid hvalid hrun answered_notFound io

theorem drop_partialPrefix (bytes : Bytes) : (partialPrefix ++ bytes).drop 8 = bytes :=
  List.drop_left' rfl

/-- **A partial value** of the cache: its whole parts are written as one. -/
theorem startLoadingWithPartial_valid (hsound : s.Sound F s.Awaited) (hrun : s.finished = false)
    (hfinalized : s.finalized = false) (hrequested : s.requested.Pairwise (· < ·))
    (hidle : s.Untouched) (hopened : s.Opened) (hstatus : s.Answered) (io : Io) (k : Nat) :
    ∃ s', s.startLoadingWithPartial io (partialPrefix ++ F.take k) = some s' ∧ s'.Valid F := by
  have hfront : partialPrefix.isPrefixOf (partialPrefix ++ F.take k) = true :=
    List.isPrefixOf_iff_prefix.mpr (List.prefix_append ..)
  have hlength : (partialPrefix ++ F.take k).length - 8 = min k F.length := by
    rw [List.length_append, List.length_take, show partialPrefix.length = 8 from rfl]
    omega
  unfold startLoadingWithPartial
  rw [hfront, drop_partialPrefix, hlength]
  simp only [Bool.not_true, Bool.false_eq_true, if_false]
  generalize hparts : min k F.length / kDownloadPartSize * kDownloadPartSize = use
  have huse : use ≤ min k F.length := hparts ▸ Nat.div_mul_le_self ..
  have hdvd : kDownloadPartSize ∣ use := hparts ▸ Nat.dvd_mul_left ..
  split
  · next hpos =>
    have hbytes : ((F.take k).take use).length = use := by
      rw [List.length_take, List.length_take]
      omega
    have hbuffer : (F.take k).take use = (F.drop 0).take ((F.take k).take use).length := by
      rw [hbytes, List.drop_zero, List.take_take, Nat.min_eq_left (by omega)]
    have hnone : ∀ o, ¬ o < s.nextRequestOffset := fun o => by
      rw [hidle.next]
      exact Nat.not_lt_zero o
    have hheld : s.held.length ≤ 0 := by
      have hle := hsound.length.2
      rwa [hidle.next] at hle
    have hfeed : Sound F (fun _ => True) { s with nextRequestOffset := use } :=
      { size := hsound.size
        aligned := hdvd
        sent := fun o ho => absurd (hsound.sent o ho).1 (hnone o)
        nodup := hsound.nodup
        requested := fun o ho => absurd (hsound.requested o ho) (hnone o)
        last := fun hlast => by
          have hend := hsound.last hlast
          rw [hidle.next] at hend
          exact hend.trans (Nat.zero_le _)
        written := fun _ _ _ hm => absurd trivial hm
        held := fun _ _ _ hm => absurd trivial hm
        length := ⟨hheld.trans (Nat.zero_le _), hheld.trans (Nat.zero_le _)⟩
        opened := hsound.opened
        closed := hsound.closed
        unopened := fun hname hcache hclosed =>
          absurd ((hopened hname hcache).symm.trans hclosed) (by decide)
        idle := fun hs => absurd hs hstatus }
    have hwhole : ¬ ((F.take k).take use = [] ∨ ((F.take k).take use).length % 1024 ≠ 0) := by
      rw [not_or, not_not, hbytes]
      refine ⟨fun hnil => ?_, Nat.mod_eq_zero_of_dvd ((by decide : 1024 ∣ kDownloadPartSize).trans hdvd)⟩
      rw [hnil, List.length_nil] at hbytes
      omega
    obtain ⟨b, s', heq, hvalid, hnext⟩ := feedPart_valid hfeed hrun hfinalized hrequested io hbuffer
      (fun _ => by rw [hbytes, Nat.zero_add])
      (fun i hi _ _ hout => absurd ⟨Nat.zero_le i, by rwa [hbytes, Nat.zero_add]⟩ hout)
      (fun hshort => absurd hshort hwhole)
    refine ⟨s'.startLoading, by rw [heq]; rfl, startLoading_valid hvalid fun hgo => .inl ?_⟩
    rw [hnext hgo]
    exact Nat.ne_of_gt hpos
  · exact ⟨_, rfl, startLoading_valid (Valid.running_of hsound hrun hfinalized hrequested)
      fun _ => .inr ⟨hopened, hstatus⟩⟩

/-- **`finishWithBytes`** of a loader that nothing was written for. -/
theorem finishWithBytes_valid (hsound : s.Sound F s.Awaited) (hfinalized : s.finalized = false)
    (hrequested : s.requested.Pairwise (· < ·)) (hidle : s.Untouched) (io : Io) {data : Bytes}
    (hdata : data = F.take data.length) : (s.finishWithBytes io data).Valid F := by
  have hnot : s.finalized = true → s.Complete F :=
    fun hdone => absurd (hfinalized.symm.trans hdone) (by decide)
  unfold finishWithBytes
  obtain ⟨isOpen, heq⟩ | ⟨isOpen, file, heq, hfile⟩ :=
    writeAtEnd_cases (s := { s with data := data, localStatus := .Loaded })
      (fun hopen => (hsound.opened hopen).1) (fun _ => hidle.file) io
  · rw [heq]
    exact Valid.cancel hrequested (fun _ => rfl) hnot
  · rw [heq]
    refine Valid.done hrequested rfl hidle.sent ⟨hdata, ?_⟩ hnot
    obtain rfl | rfl := hfile
    · show s.file = F.take s.file.length
      rw [hidle.file]
      rfl
    · exact hdata

/-- **The local value** was found, in part or not at all. -/
theorem localLoaded_valid (h : s.Valid F) (hrun : s.finished = false)
    (hstatus : s.localStatus = .Loading) (io : Io) {result : Bytes}
    (hresult : result = [] ∨ ∃ k, result = partialPrefix ++ F.take k) :
    ∃ s', s.localLoaded io result = some s' ∧ s'.Valid F := by
  obtain ⟨hsound, hfinalized⟩ := h.running hrun
  have hidle := hsound.idle (.inr hstatus)
  have hsound' := hsound.notFound
  have hvalid := Valid.running_of hsound' hrun hfinalized h.requested
  unfold localLoaded
  obtain rfl | ⟨k, rfl⟩ := hresult
  · exact ⟨_, rfl, start_valid hvalid io⟩
  · have hfront : partialPrefix.isPrefixOf (partialPrefix ++ F.take k) = true :=
      List.isPrefixOf_iff_prefix.mpr (List.prefix_append ..)
    rw [if_neg (by simp [partialPrefix]), hfront]
    dsimp only
    split
    · obtain ⟨-, heq⟩ | ⟨isOpen, file, heq, hopen, hopened, huntouched⟩ :=
        checkForOpen_cases hsound' io
      · rw [heq]
        exact ⟨_, rfl, hvalid.cancel_of⟩
      · rw [heq]
        exact startLoadingWithPartial_valid
          (s := { s with localStatus := .NotFound, fileIsOpen := isOpen, file := file }) hopen hrun
          hfinalized h.requested (huntouched { hidle with }) hopened
          (answered_notFound (s := s)) io k
    · refine ⟨_, rfl, finishWithBytes_valid hsound hfinalized h.requested hidle io ?_⟩
      rw [if_pos rfl, drop_partialPrefix, List.length_take]
      exact List.take_eq_take_iff.mpr (by omega)

/-! ## Runs -/

/-- What may happen to a loader of the file `F`.  The local value is answered once,
with nothing or with a partial value; only what was asked for is answered, once and
with its part of the file; a web answer tells the size of the file. -/
def Allowed (F : Bytes) (s : FileLoader) : Event → Prop
  | .start _ => True
  | .localLoaded _ result => s.localStatus = .Loading ∧ s.finished = false ∧
      (result = [] ∨ ∃ k, result = partialPrefix ++ F.take k)
  | .loadPart => s.inQueue = true ∧ s.readyToRequest = true
  | .partLoaded _ offset bytes size => offset ∈ s.sentRequests ∧ bytes = part F offset ∧
      ∀ n ∈ size, n = F.length
  | .increaseLoadSize size _ => s.finished = false ∧ s.loadSize < size ∧ size ≤ s.fullSize
  | .cancel => True

def AllowedRun (F : Bytes) : FileLoader → List Event → Prop
  | _, [] => True
  | s, e :: events => Allowed F s e ∧ ∀ s', s.act e = some s' → AllowedRun F s' events

/-- **One event** is handled, and the loader stays valid. -/
theorem act_valid (h : s.Valid F) {e : Event} (hallowed : Allowed F s e) :
    ∃ s', s.act e = some s' ∧ s'.Valid F := by
  cases e with
  | start io => exact ⟨_, rfl, start_valid h io⟩
  | localLoaded io result =>
    obtain ⟨hstatus, hrun, hresult⟩ := hallowed
    exact localLoaded_valid h hrun hstatus io hresult
  | loadPart => exact loadPart_valid h hallowed.1 hallowed.2
  | partLoaded io offset bytes size =>
    obtain ⟨hoffset, rfl, hsize⟩ := hallowed
    exact partLoaded_valid h io hoffset hsize
  | increaseLoadSize size autoLoading =>
    obtain ⟨hrun, hmore, hle⟩ := hallowed
    exact increaseLoadSize_valid h hrun hmore hle autoLoading
  | cancel => exact ⟨_, rfl, h.cancel_of⟩

theorem run_valid (events : List Event) (h : s.Valid F) (hallowed : AllowedRun F s events) :
    ∃ s', s.run events = some s' ∧ s'.Valid F := by
  induction events generalizing s with
  | nil => exact ⟨s, rfl, h⟩
  | cons e events ih =>
    obtain ⟨s₁, heq, hvalid⟩ := act_valid h hallowed.1
    obtain ⟨s', hrun, hvalid'⟩ := ih hvalid (hallowed.2 s₁ heq)
    exact ⟨s', by rw [run, List.foldlM_cons, heq]; exact hrun, hvalid'⟩

/-- A loader as it is made for a file of a known or an unknown size. -/
structure Fresh (F : Bytes) (s : FileLoader) : Prop where
  untouched : s.Untouched
  size : s.fullSize = 0 ∨ s.fullSize = F.length
  loadSize : s.loadSize ≤ s.fullSize
  closed : s.fileIsOpen = false
  status : s.localStatus = .NotTried
  running : s.finished = false ∧ s.lastComplete = false ∧ s.finalized = false
  recorded : s.written = [] ∧ s.requested = []

theorem Fresh.valid (h : s.Fresh F) : s.Valid F := by
  obtain ⟨hrun, hlast, hfinalized⟩ := h.running
  have hheld : s.held = [] := by
    rw [held, h.closed]
    exact h.untouched.data
  have hnone : ∀ i, ¬ i < s.nextRequestOffset := fun i => by
    rw [h.untouched.next]
    exact Nat.not_lt_zero i
  refine Valid.running_of ?_ hrun hfinalized (by rw [h.recorded.2]; exact List.Pairwise.nil)
  exact
    { size := h.size
      aligned := by rw [h.untouched.next]; exact Nat.dvd_zero _
      sent := fun o ho => by rw [h.untouched.sent] at ho; cases ho
      nodup := by rw [h.untouched.sent]; exact List.nodup_nil
      requested := fun o ho => by rw [h.recorded.2] at ho; cases ho
      last := fun hdone => absurd (hlast.symm.trans hdone) (by decide)
      written := fun i hi => absurd hi (hnone i)
      held := fun i hi => absurd hi (hnone i)
      length := by rw [hheld]; exact ⟨Nat.zero_le _, Nat.zero_le _⟩
      opened := fun hopen => absurd (h.closed.symm.trans hopen) (by decide)
      closed := fun _ => h.untouched.file
      unopened := fun _ _ _ => h.untouched
      idle := fun _ => h.untouched }

/-- **A finished download is complete.**  Whatever happens to a loader of `F`, no
check of the code fails, no offset is asked for twice, `finalizeResult` is only
reached when every byte to load was written at its own place, and what a finished
loader holds is `F` as far as it goes. -/
theorem finalizeResult_complete (F : Bytes) (s : FileLoader) (events : List Event) (h : s.Fresh F)
    (hallowed : AllowedRun F s events) :
    ∃ s', s.run events = some s' ∧ s'.requested.Nodup ∧
      (s'.finalized = true → ∀ i, i < F.length → s'.fullSize = 0 ∨ i < s'.loadSize →
        ∃ w ∈ s'.written, w.1 ≤ i ∧ i < w.1 + w.2.length ∧ w.2 = (F.drop w.1).take w.2.length) ∧
      (s'.finished = true →
        s'.data = F.take s'.data.length ∧ s'.file = F.take s'.file.length) := by
  obtain ⟨s', hrun, hvalid⟩ := run_valid events h.valid hallowed
  exact ⟨s', hrun, hvalid.requested.imp Nat.ne_of_lt, hvalid.complete,
    fun hdone => ⟨(hvalid.holds hdone).data, (hvalid.holds hdone).file⟩⟩

/-- Three bytes, of which two were to be loaded at first. -/
theorem finalizeResult_complete_three :
    ∃ s', run { loadSize := 2, fullSize := 3 }
        [.start {}, .loadPart, .increaseLoadSize 3 true, .partLoaded {} 0 [1, 2, 3] none] = some s' ∧
      s'.requested.Nodup ∧
      (s'.finalized = true → ∀ i, i < ([1, 2, 3] : Bytes).length → s'.fullSize = 0 ∨ i < s'.loadSize →
        ∃ w ∈ s'.written, w.1 ≤ i ∧ i < w.1 + w.2.length ∧
          w.2 = (([1, 2, 3] : Bytes).drop w.1).take w.2.length) ∧
      (s'.finished = true → s'.data = ([1, 2, 3] : Bytes).take s'.data.length ∧
        s'.file = ([1, 2, 3] : Bytes).take s'.file.length) := by
  refine finalizeResult_complete [1, 2, 3] _ _ ⟨⟨rfl, rfl, rfl, rfl, rfl⟩, .inr rfl, by decide, rfl, rfl,
    ⟨rfl, rfl, rfl⟩, ⟨rfl, rfl⟩⟩ ⟨trivial, fun s₁ h₁ => ?_⟩
  obtain rfl := Option.some.inj h₁
  refine ⟨⟨rfl, by decide⟩, fun s₂ h₂ => ?_⟩
  obtain rfl := Option.some.inj h₂
  refine ⟨⟨rfl, by decide, by decide⟩, fun s₃ h₃ => ?_⟩
  obtain rfl := Option.some.inj h₃
  exact ⟨⟨List.mem_cons_self, rfl, fun n hn => by cases hn⟩, fun _ _ => trivial⟩

end FileLoader

end Storage

end MessengerClient
