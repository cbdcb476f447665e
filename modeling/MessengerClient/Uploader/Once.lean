import MessengerClient.Uploader.Waiting

/-!
# MessengerClient.Uploader.Once

Every item that is given to the uploader is reported once: how often its id was given is
how often it was reported, and one more while it is in the queue or waits for its cover.

A video waits for a cover that is in the queue or on its way.  What breaks this is a cover
that fails while it is in the queue: `failed` then finds the entry and stops looking, so
the video keeps waiting for a cover that is gone.
-/

namespace MessengerClient

/-! ## Maps that are inverse to each other -/

section Inverse

variable {K V : Type*} [LinearOrder K]

/-- `m` leads from an owner to the key under which `w` holds what it owns. -/
def Inverse (m : FlatMap K K) (w : FlatMap K V) (owner : V → K) : Prop :=
  ∀ v c, m.find? v = some c ↔ ∃ x, w.find? c = some x ∧ owner x = v

variable {m : FlatMap K K} {w : FlatMap K V} {owner : V → K}

theorem Inverse.emplace (h : Inverse m w owner) {c : K} {x : V} (hm : m.find? (owner x) = none)
    (hw : w.find? c = none) : Inverse (m.emplace (owner x) c) (w.emplace c x) owner := by
  intro v' c'
  have hnot : ∀ y, w.find? c' = some y → owner y ≠ owner x := fun y hy heq => by
    rw [(h (owner x) c').mpr ⟨y, hy, heq⟩] at hm
    cases hm
  by_cases hc : c' = c
  · subst hc
    rw [FlatMap.find?_emplace_self x hw]
    by_cases hv : v' = owner x
    · subst hv
      rw [FlatMap.find?_emplace_self c' hm]
      exact ⟨fun _ => ⟨x, rfl, rfl⟩, fun _ => rfl⟩
    · rw [FlatMap.find?_emplace_ne _ _ hv, h v' c', hw]
      refine ⟨fun ⟨_, hy, _⟩ => (by cases hy), fun ⟨y, hy, hv'⟩ => ?_⟩
      exact absurd (Option.some.inj hy ▸ hv'.symm) hv
  · rw [FlatMap.find?_emplace_ne _ _ hc]
    by_cases hv : v' = owner x
    · subst hv
      rw [FlatMap.find?_emplace_self c hm]
      refine ⟨fun heq => absurd (Option.some.inj heq).symm hc, fun ⟨y, hy, hv'⟩ => ?_⟩
      exact absurd hv' (hnot y hy)
    · rw [FlatMap.find?_emplace_ne _ _ hv]
      exact h v' c'

theorem Inverse.erase (h : Inverse m w owner) {v c : K} (hv : m.find? v = some c) :
    Inverse (m.erase v) (w.erase c) owner := by
  obtain ⟨x, hx, hxv⟩ := (h v c).mp hv
  intro v' c'
  rw [FlatMap.find?_erase, FlatMap.find?_erase]
  by_cases hv' : v' = v
  · subst hv'
    rw [if_pos rfl]
    refine ⟨nofun, fun ⟨y, hy, hyv⟩ => ?_⟩
    split at hy
    · cases hy
    · next hc =>
      rw [(h v' c').mpr ⟨y, hy, hyv⟩] at hv
      exact absurd (Option.some.inj hv) hc
  · rw [if_neg hv', h v' c']
    by_cases hc : c' = c
    · subst hc
      rw [if_pos rfl, hx]
      refine ⟨fun ⟨y, hy, hyv⟩ => ?_, fun ⟨_, hy, _⟩ => (by cases hy)⟩
      exact absurd (hyv.symm.trans (Option.some.inj hy ▸ hxv)) hv'
    · rw [if_neg hc]

/-- The owners of what a map holds, counted. -/
theorem count_owner_emplace [DecidableEq K] {c : K} (x : V) (hw : w.find? c = none) (k : K) :
    ((w.emplace c x).entries.map fun e => owner e.2).count k =
      (w.entries.map fun e => owner e.2).count k + if owner x = k then 1 else 0 := by
  rw [((FlatMap.emplace_entries_perm x hw).map _).count_eq, List.map_cons, List.count_cons]
  simp only [beq_iff_eq]

theorem count_owner_erase [DecidableEq K] {c : K} {x : V} (hw : w.find? c = some x) (k : K) :
    (w.entries.map fun e => owner e.2).count k =
      ((w.erase c).entries.map fun e => owner e.2).count k + if owner x = k then 1 else 0 := by
  rw [((FlatMap.erase_entries_perm hw).map _).count_eq, List.map_cons, List.count_cons]
  simp only [beq_iff_eq]

end Inverse

namespace Uploader

/-! ## The state of the items -/

/-- Covers are photos. -/
def CoverIsPhoto (file : FilePrepareResult) : Prop :=
  ∀ cover ∈ file.videoCover, cover.type = .photo

/-- The items in the queue with their files. -/
def items (s : Uploader) : List (FullMsgId × FilePrepareResult) :=
  s.queue.map fun e => (e.itemId, e.file)

/-- The videos that wait for their covers. -/
def waitingVideos (s : Uploader) : List FullMsgId :=
  s.videoWaitingCover.entries.map fun e => e.2.fullId

/-- How the items, the covers and the videos that wait stand to each other.  The cover of
the item that is about to fail may be gone. -/
structure Covers (failing : Option FullMsgId) (s : Uploader) : Prop where
  nodup : (s.items.map Prod.fst).Nodup
  issued : ∀ id ∈ s.items.map Prod.fst ++ s.coverIds, Issued s.localMessageIdCounter id
  given : ∀ id ∈ s.given, Issued s.localMessageIdCounter id ∧ id ∉ s.coverIds
  files : ∀ i ∈ s.items, i.2.All CoverIsPhoto ∧ (i.1 ∈ s.coverIds → i.2.type = .photo)
  inverse : Inverse s.videoIdToCoverId s.videoWaitingCover UploadedMedia.fullId
  videos : ∀ c m, s.videoWaitingCover.find? c = some m → c ∈ s.coverIds ∧
    Issued s.localMessageIdCounter m.fullId ∧ m.fullId ∉ s.coverIds ∧
    m.fullId ∉ s.items.map Prod.fst
  requests : (s.covering.map Prod.fst).Nodup ∧ ∀ r ∈ s.covering, r.1 < s.nextRequestId
  pending : ∀ c m, s.videoWaitingCover.find? c = some m → c ∈ s.items.map Prod.fst ∨
    (∃ r ∈ s.covering, r.2 = { videoId := m.fullId, coverId := c }) ∨ failing = some c
  count : ∀ id ∉ s.coverIds, s.given.count id = (s.reports.map Report.itemId).count id +
    (s.items.map Prod.fst).count id + s.waitingVideos.count id

/-- What sending and answering parts leave alone. -/
structure Untouched (s s' : Uploader) : Prop where
  items : s'.items = s.items
  counter : s'.localMessageIdCounter = s.localMessageIdCounter
  coverIds : s'.coverIds = s.coverIds
  given : s'.given = s.given
  reports : s'.reports = s.reports
  ids : s'.videoIdToCoverId = s.videoIdToCoverId
  waiting : s'.videoWaitingCover = s.videoWaitingCover
  covering : s'.covering = s.covering
  next : s.nextRequestId ≤ s'.nextRequestId

namespace Untouched

theorem refl (s : Uploader) : Untouched s s :=
  ⟨rfl, rfl, rfl, rfl, rfl, rfl, rfl, rfl, le_rfl⟩

theorem trans {s s' s'' : Uploader} (h : Untouched s s') (h' : Untouched s' s'') :
    Untouched s s'' :=
  ⟨h'.items.trans h.items, h'.counter.trans h.counter, h'.coverIds.trans h.coverIds,
    h'.given.trans h.given, h'.reports.trans h.reports, h'.ids.trans h.ids,
    h'.waiting.trans h.waiting, h'.covering.trans h.covering, h.next.trans h'.next⟩

end Untouched

variable {s s' : Uploader} {failing : Option FullMsgId}

theorem map_fst_items (s : Uploader) : s.items.map Prod.fst = s.queue.map Entry.itemId := by
  rw [items, List.map_map]
  rfl

theorem count_report (reports : List Report) (r : Report) (id : FullMsgId) :
    ((reports ++ [r]).map Report.itemId).count id =
      (reports.map Report.itemId).count id + if r.itemId = id then 1 else 0 := by
  rw [List.map_append, List.count_append, List.map_singleton, List.count_singleton]
  simp only [beq_iff_eq]

namespace Covers

theorem transfer (h : Covers failing s) (hs : Untouched s s') : Covers failing s' where
  nodup := by rw [hs.items]; exact h.nodup
  issued := by rw [hs.items, hs.coverIds, hs.counter]; exact h.issued
  given := by rw [hs.given, hs.coverIds, hs.counter]; exact h.given
  files := by rw [hs.items, hs.coverIds]; exact h.files
  inverse := by rw [hs.ids, hs.waiting]; exact h.inverse
  videos := by rw [hs.waiting, hs.coverIds, hs.counter, hs.items]; exact h.videos
  requests := by
    rw [hs.covering]
    exact ⟨h.requests.1, fun r hr => (h.requests.2 r hr).trans_le hs.next⟩
  pending := by rw [hs.waiting, hs.items, hs.covering]; exact h.pending
  count := by
    rw [hs.coverIds, hs.given, hs.reports, hs.items, waitingVideos, hs.waiting]
    exact h.count

theorem weaken (h : Covers none s) (failing : Option FullMsgId) : Covers failing s :=
  { h with pending := fun c m hm => (h.pending c m hm).imp_right (·.imp_right nofun) }

theorem append {calls : List Call} (h : Covers (failingOf calls) s) (more : List Call) :
    Covers (failingOf (calls ++ more)) s := by
  cases calls with
  | nil => exact h.weaken _
  | cons call calls => cases call <;> exact h

/-- An entry that no video waits for leaves the queue and is reported. -/
theorem leave (h : Covers failing s) {itemId : FullMsgId} {file : FilePrepareResult}
    {queue : List Entry} {r : Report} (hf : ∀ id ∈ failing, id = itemId)
    (hperm : s.items.Perm ((itemId, file) :: { s with queue }.items))
    (hwait : s.videoWaitingCover.find? itemId = none) (hr : r.itemId = itemId) :
    Covers none ({ s with queue }.report r) where
  nodup := (List.nodup_cons.mp ((hperm.map Prod.fst).nodup_iff.mp h.nodup)).2
  issued id hid := h.issued id (by
    rw [((hperm.map Prod.fst).append_right s.coverIds).mem_iff]
    exact .tail _ hid)
  given := h.given
  files i hi := h.files i (hperm.mem_iff.mpr (.tail _ hi))
  inverse := h.inverse
  videos c m hm := by
    obtain ⟨hc, hissued, hcover, hqueue⟩ := h.videos c m hm
    exact ⟨hc, hissued, hcover, fun hmem =>
      hqueue ((hperm.map Prod.fst).mem_iff.mpr (.tail _ hmem))⟩
  requests := h.requests
  pending c m hm := by
    have hm : s.videoWaitingCover.find? c = some m := hm
    have hne : c ≠ itemId := fun heq => by
      rw [heq, hwait] at hm
      cases hm
    rcases h.pending c m hm with hmem | hcovering | hfail
    · rw [(hperm.map Prod.fst).mem_iff] at hmem
      exact .inl ((List.mem_cons.mp hmem).resolve_left hne)
    · exact .inr (.inl hcovering)
    · exact absurd (hf c hfail) hne
  count id hid := by
    have hcount := h.count id hid
    have hitems := (hperm.map Prod.fst).count_eq id
    rw [List.map_cons, List.count_cons] at hitems
    have hreports := count_report s.reports r id
    rw [hr] at hreports
    have hgoal : s.given.count id = ((s.reports ++ [r]).map Report.itemId).count id +
        ({ s with queue }.items.map Prod.fst).count id + s.waitingVideos.count id := by
      rw [hreports]
      simp only [beq_iff_eq] at hitems
      omega
    exact hgoal

/-- A cover whose parts are stored leaves the queue, and its `UploadMedia` is on its way. -/
theorem handOver (h : Covers none s) {itemId : FullMsgId} {file : FilePrepareResult}
    {queue : List Entry} {video ready : UploadedMedia}
    (hitems : s.items = (itemId, file) :: { s with queue }.items)
    (hwait : s.videoWaitingCover.find? itemId = some video) (hready : ready.fullId = itemId) :
    Covers none ({ s with queue }.uploadCoverAsPhoto video.fullId ready) where
  nodup := by
    have := h.nodup
    rw [hitems] at this
    exact (List.nodup_cons.mp this).2
  issued id hid := h.issued id (by
    rw [hitems]
    exact .tail _ hid)
  given := h.given
  files i hi := h.files i (hitems ▸ .tail _ hi)
  inverse := h.inverse
  videos c m hm := by
    obtain ⟨hc, hissued, hcover, hqueue⟩ := h.videos c m hm
    rw [hitems] at hqueue
    exact ⟨hc, hissued, hcover, fun hmem => hqueue (.tail _ hmem)⟩
  requests := by
    refine ⟨?_, fun r hr => ?_⟩
    · have hmap : ({ s with queue }.uploadCoverAsPhoto video.fullId ready).covering.map Prod.fst =
          s.covering.map Prod.fst ++ [s.nextRequestId] := List.map_append
      rw [hmap]
      exact List.concat_eq_append ▸ h.requests.1.concat fun hmem => by
        obtain ⟨r, hr, heq⟩ := List.mem_map.mp hmem
        exact (heq ▸ h.requests.2 r hr).false
    · cases List.mem_append.mp hr with
      | inl hr => exact Nat.lt_succ_of_lt (h.requests.2 r hr)
      | inr hr =>
          rw [List.mem_singleton.mp hr]
          exact Nat.lt_succ_self _
  pending c m hm := by
    have hm : s.videoWaitingCover.find? c = some m := hm
    rcases h.pending c m hm with hmem | ⟨r, hr, heq⟩ | hfail
    · rw [hitems] at hmem
      cases List.mem_cons.mp hmem with
      | inl hc =>
          obtain rfl : c = itemId := hc
          obtain rfl : video = m := Option.some.inj (hwait.symm.trans hm)
          exact .inr (.inl ⟨_, List.mem_append_right _ (.head _), by rw [hready]⟩)
      | inr hmem => exact .inl hmem
    · exact .inr (.inl ⟨r, List.mem_append_left _ hr, heq⟩)
    · cases hfail
  count id hid := by
    have hcount := h.count id hid
    have hne : itemId ≠ id := fun heq => hid (heq ▸ (h.videos _ _ hwait).1)
    rw [hitems, List.map_cons, List.count_cons_of_ne hne] at hcount
    exact hcount

/-- A video whose file is stored waits for its cover, which joins the queue. -/
theorem await (h : Covers none s) {itemId : FullMsgId} {file cover : FilePrepareResult}
    {queue : List Entry} {video : UploadedMedia}
    (hitems : s.items = (itemId, file) :: { s with queue }.items)
    (hfile : file.type ≠ .photo) (hvideo : video.fullId = itemId)
    (hcover : cover.All CoverIsPhoto ∧ cover.type = .photo)
    (hlt : s.localMessageIdCounter < endClientMsgId) {coverId : FullMsgId}
    (hid : coverId = { peer := cover.toPeer, msg := s.localMessageIdCounter }) :
    Covers none { s with
      queue := queue ++ [({ itemId := coverId, file := cover } : Entry)]
      localMessageIdCounter := s.localMessageIdCounter + 1
      coverIds := s.coverIds ++ [coverId]
      videoIdToCoverId := s.videoIdToCoverId.emplace video.fullId coverId
      videoWaitingCover := s.videoWaitingCover.emplace coverId video } := by
  have hle : s.localMessageIdCounter ≤ s.localMessageIdCounter + 1 := Int.le_add_one (le_refl _)
  have hfresh : ¬ Issued s.localMessageIdCounter coverId := by
    rintro (hissued | hissued)
    · rw [hid] at hissued
      exact lt_irrefl _ hissued
    · rw [hid] at hissued
      exact (hissued.trans_lt hlt).false
  have hnew : Issued (s.localMessageIdCounter + 1) coverId := .inl (hid ▸ Int.lt_succ _)
  have hnotItem : ∀ id ∈ s.items.map Prod.fst, id ≠ coverId := fun id hmem heq =>
    hfresh (heq ▸ h.issued id (List.mem_append_left _ hmem))
  have hnotCover : coverId ∉ s.coverIds := fun hmem =>
    hfresh (h.issued _ (List.mem_append_right _ hmem))
  have hwaiting : s.videoWaitingCover.find? coverId = none := by
    cases hfind : s.videoWaitingCover.find? coverId with
    | none => rfl
    | some m => exact absurd (h.videos _ _ hfind).1 hnotCover
  have hitemMem : itemId ∈ s.items.map Prod.fst := by
    rw [hitems]
    exact .head _
  have hitem : itemId ∉ s.coverIds := fun hmem =>
    hfile ((h.files (itemId, file) (hitems ▸ .head _)).2 hmem)
  have hids : s.videoIdToCoverId.find? video.fullId = none := by
    cases hfind : s.videoIdToCoverId.find? video.fullId with
    | none => rfl
    | some c =>
        obtain ⟨m, hm, heq⟩ := (h.inverse _ _).mp hfind
        exact absurd (heq.trans hvideo ▸ hitemMem) (h.videos c m hm).2.2.2
  have hnodup := h.nodup
  rw [hitems] at hnodup
  obtain ⟨hnot, hrest⟩ := List.nodup_cons.mp hnodup
  -- what is in the queue after it
  have hqueue : (queue ++ [({ itemId := coverId, file := cover } : Entry)]).map
      (fun e => (e.itemId, e.file)) = { s with queue }.items ++ [(coverId, cover)] :=
    List.map_append
  have hkeys : ((queue ++ [({ itemId := coverId, file := cover } : Entry)]).map
      (fun e => (e.itemId, e.file))).map Prod.fst =
        { s with queue }.items.map Prod.fst ++ [coverId] := by
    rw [hqueue, List.map_append]
    rfl
  have hsub : ∀ id ∈ { s with queue }.items.map Prod.fst, id ∈ s.items.map Prod.fst :=
    fun id hmem => by
      rw [hitems]
      exact .tail _ hmem
  exact
    { nodup := by
        rw [items, hkeys]
        exact List.concat_eq_append ▸ hrest.concat fun hmem => hnotItem _ (hsub _ hmem) rfl
      issued := fun id hmem => by
        rw [items, hkeys] at hmem
        simp only [List.mem_append, List.mem_singleton] at hmem
        rcases hmem with (hmem | rfl) | hmem | rfl
        · exact (h.issued id (List.mem_append_left _ (hsub _ hmem))).mono hle
        · exact hnew
        · exact (h.issued id (List.mem_append_right _ hmem)).mono hle
        · exact hnew
      given := fun id hmem => by
        obtain ⟨hissued, hcovers⟩ := h.given id hmem
        refine ⟨hissued.mono hle, fun hmem => ?_⟩
        cases List.mem_append.mp hmem with
        | inl hmem => exact hcovers hmem
        | inr hmem => exact hfresh (List.mem_singleton.mp hmem ▸ hissued)
      files := fun i hi => by
        rw [items, hqueue] at hi
        cases List.mem_append.mp hi with
        | inl hi =>
            obtain ⟨hall, hphoto⟩ := h.files i (hitems ▸ .tail _ hi)
            refine ⟨hall, fun hmem => ?_⟩
            cases List.mem_append.mp hmem with
            | inl hmem => exact hphoto hmem
            | inr hmem =>
                exact absurd (List.mem_singleton.mp hmem)
                  (hnotItem _ (hsub _ (List.mem_map_of_mem hi)))
        | inr hi =>
            rw [List.mem_singleton.mp hi]
            exact ⟨hcover.1, fun _ => hcover.2⟩
      inverse := h.inverse.emplace hids hwaiting
      videos := fun c m hm => by
        rw [items, hkeys]
        rw [FlatMap.find?_emplace] at hm
        split at hm
        · next hc =>
          rw [hwaiting, Option.getD_none] at hm
          obtain rfl := Option.some.inj hm
          rw [hvideo, hc]
          refine ⟨List.mem_append_right _ (.head _), ?_, fun hmem => ?_, fun hmem => ?_⟩
          · exact (h.issued _ (List.mem_append_left _ hitemMem)).mono hle
          · cases List.mem_append.mp hmem with
            | inl hmem => exact hitem hmem
            | inr hmem => exact hnotItem _ hitemMem (List.mem_singleton.mp hmem)
          · cases List.mem_append.mp hmem with
            | inl hmem => exact hnot hmem
            | inr hmem => exact hnotItem _ hitemMem (List.mem_singleton.mp hmem)
        · obtain ⟨hc, hissued, hcovers, hq⟩ := h.videos c m hm
          have hne : m.fullId ≠ coverId := fun heq => hfresh (heq ▸ hissued)
          refine ⟨List.mem_append_left _ hc, hissued.mono hle, fun hmem => ?_, fun hmem => ?_⟩
          · exact (List.mem_append.mp hmem).elim hcovers fun hmem => hne (List.mem_singleton.mp hmem)
          · exact (List.mem_append.mp hmem).elim (fun hmem => hq (hsub _ hmem))
              fun hmem => hne (List.mem_singleton.mp hmem)
      requests := h.requests
      pending := fun c m hm => by
        rw [items, hkeys]
        rw [FlatMap.find?_emplace] at hm
        split at hm
        · next hc =>
          rw [hc]
          exact .inl (List.mem_append_right _ (.head _))
        · rcases h.pending c m hm with hmem | hcovering | hfail
          · rw [hitems] at hmem
            cases List.mem_cons.mp hmem with
            | inl hc =>
                obtain rfl : c = itemId := hc
                exact absurd (h.videos c m hm).1 hitem
            | inr hmem => exact .inl (List.mem_append_left _ hmem)
          · exact .inr (.inl hcovering)
          · cases hfail
      count := fun id hmem => by
        have hmem := List.mem_append.not.mp hmem
        have hcount := h.count id fun hc => hmem (.inl hc)
        rw [hitems, List.map_cons, List.count_cons] at hcount
        have hne : ¬ (coverId == id) = true := fun heq =>
          hmem (.inr (List.mem_singleton.mpr (beq_iff_eq.mp heq).symm))
        have hgoal : s.given.count id = (s.reports.map Report.itemId).count id +
            (({ s with queue }.items.map Prod.fst ++ [coverId]).count id +
              ((s.videoWaitingCover.emplace coverId video).entries.map
                fun e => e.2.fullId).count id) := by
          rw [count_owner_emplace video hwaiting, List.count_append, List.count_singleton,
            if_neg hne, hvideo]
          simp only [beq_iff_eq] at hcount
          rw [waitingVideos] at hcount
          omega
        rw [items, hkeys]
        exact hgoal.trans (Nat.add_assoc ..).symm }

end Covers

/-! ## What leaves the items alone -/

theorem items_setEntry (hnodup : (s.items.map Prod.fst).Nodup) {entry entry' : Entry}
    (he : entry ∈ s.queue) (hid : entry'.itemId = entry.itemId)
    (hfile : entry'.file = entry.file) : (s.setEntry entry').items = s.items := by
  rw [map_fst_items] at hnodup
  rw [items, setEntry, List.map_map]
  refine List.map_congr_left fun e hmem => ?_
  by_cases heq : e.itemId = entry'.itemId
  · obtain rfl : e = entry := eq_of_itemId_eq hnodup hmem he (heq.trans hid)
    simp [hid, hfile]
  · simp [heq]

theorem untouched_setEntry (hnodup : (s.items.map Prod.fst).Nodup) {entry entry' : Entry}
    (he : entry ∈ s.queue) (hid : entry'.itemId = entry.itemId)
    (hfile : entry'.file = entry.file) : Untouched s (s.setEntry entry') :=
  { Untouched.refl s with items := items_setEntry hnodup he hid hfile }

theorem untouched_send (now : Time) (m : SaveFilePart) (r : Request) (s : Uploader) :
    Untouched s (s.sendPreparedRequest now m r) :=
  { Untouched.refl s with next := Nat.le_succ _ }

theorem untouched_sendPart {entry : Entry} (hnodup : (s.items.map Prod.fst).Nodup)
    (he : entry ∈ s.queue) {now : Time} {dcIndex : Nat} {result : SendResult}
    (h : s.sendPart now entry dcIndex = .ok (s', result)) : Untouched s s' := by
  rw [sendPart] at h
  split at h
  · next request rest _ =>
    obtain ⟨rfl, -⟩ := Prod.mk.inj (Except.ok.inj h)
    rw [sendPendingPart]
    split <;>
      exact (show Untouched s { s with pendingFromRemovedDcIndices := rest } from
        { Untouched.refl s with }).trans (untouched_send ..)
  · split at h
    · rw [sendSlicedPart] at h
      split at h
      · cases h
      · split at h
        · obtain ⟨rfl, -⟩ := Prod.mk.inj (Except.ok.inj h)
          exact .refl s
        · obtain ⟨rfl, -⟩ := Prod.mk.inj (Except.ok.inj h)
          refine Untouched.trans ?_ (untouched_send ..)
          exact untouched_setEntry hnodup he rfl rfl
    · obtain ⟨docFile, hread⟩ := readDocPart_fst entry
      rw [sendDocPart] at h
      split at h
      · obtain ⟨rfl, -⟩ := Prod.mk.inj (Except.ok.inj h)
        exact .refl s
      · split at h
        · dsimp only at h
          rw [hread] at h
          split at h
          · obtain ⟨rfl, -⟩ := Prod.mk.inj (Except.ok.inj h)
            exact untouched_setEntry hnodup he rfl rfl
          · obtain ⟨rfl, -⟩ := Prod.mk.inj (Except.ok.inj h)
            refine Untouched.trans ?_ (untouched_send ..)
            exact untouched_setEntry hnodup he rfl rfl
        · cases h

theorem mem_of_chooseEntry {entry : Entry}
    (h : s.chooseEntryForNextRequest = .ok (some entry)) : entry ∈ s.queue := by
  rw [chooseEntryForNextRequest] at h
  split at h
  · split at h
    · cases h
    · next hfind =>
      obtain rfl := Option.some.inj (Except.ok.inj h)
      exact (mem_of_findEntry hfind).1
  · exact List.mem_of_find?_eq_some (Except.ok.inj h)

theorem untouched_sendTo (hnodup : (s.items.map Prod.fst).Nodup) {now : Time} {used : List Nat}
    {dcIndex : Nat} {calls : List Call} (h : s.sendTo now used dcIndex = .ok (s', calls)) :
    Untouched s s' := by
  rw [sendTo] at h
  cases hchosen : s.chooseEntryForNextRequest with
  | error e =>
      rw [hchosen] at h
      cases h
  | ok chosen =>
      rw [hchosen] at h
      cases chosen with
      | none =>
          obtain ⟨rfl, -⟩ := Prod.mk.inj (Except.ok.inj h)
          exact .refl s
      | some entry =>
          simp only [bind, Except.bind] at h
          cases hsend : s.sendPart now entry dcIndex with
          | error e =>
              rw [hsend] at h
              cases h
          | ok r =>
              obtain ⟨s₁, result⟩ := r
              rw [hsend] at h
              have hs := untouched_sendPart hnodup (mem_of_chooseEntry hchosen) hsend
              cases result <;> obtain ⟨rfl, -⟩ := Prod.mk.inj (Except.ok.inj h) <;> exact hs

theorem untouched_sendNext (now : Time) (used : List Nat) (s : Uploader) :
    Untouched s (s.sendNext now used).1 := by
  rw [sendNext]
  have hchoose : Untouched s (s.chooseDcIndexForNextRequest now used).1 := by
    rw [chooseDcIndexForNextRequest]
    split
    · exact .refl s
    · split
      · exact { Untouched.refl s with }
      · exact .refl s
  split
  · next h =>
    rw [h] at hchoose
    exact hchoose
  · next h =>
    rw [h] at hchoose
    exact { hchoose with }

theorem untouched_maybeSend (s : Uploader) : Untouched s s.maybeSend.1 := by
  rw [maybeSend]
  split
  · exact { Untouched.refl s with }
  · split
    · exact .refl s
    · exact { Untouched.refl s with }

theorem untouched_stopSessions (s : Uploader) : Untouched s s.stopSessions := by
  rw [stopSessions]
  split <;> exact { Untouched.refl s with }

theorem untouched_removeDcIndex (h : s.removeDcIndex = .ok s') : Untouched s s' := by
  rw [removeDcIndex] at h
  split at h
  · cases h
  · dsimp only at h
    split at h
    · cases h
    · obtain rfl := Except.ok.inj h
      exact { Untouched.refl s with }

theorem untouched_noteDuration {now : Time} {request : Request}
    (h : s.noteDuration now request = .ok s') : Untouched s s' := by
  rw [noteDuration] at h
  split at h
  · dsimp only at h
    split at h
    · cases hremove : ({ s with dcIndicesWithFastRequests := [] } : Uploader).removeDcIndex with
      | error e =>
          rw [hremove] at h
          cases h
      | ok s₁ =>
          rw [hremove] at h
          obtain rfl := Except.ok.inj h
          exact { untouched_removeDcIndex hremove with }
    · obtain rfl := Except.ok.inj h
      exact { Untouched.refl s with }
  · split at h
    · obtain rfl := Except.ok.inj h
      exact { Untouched.refl s with }
    · obtain rfl := Except.ok.inj h
      exact .refl s

/-! ## Videos that are settled -/

namespace Covers

/-- A video stops waiting and is reported. -/
theorem settle (h : Covers failing s) {v c : FullMsgId} {video : UploadedMedia} {r : Report}
    (hid : s.videoIdToCoverId.find? v = some c) (hwait : s.videoWaitingCover.find? c = some video)
    (hr : r.itemId = video.fullId) {failing' : Option FullMsgId}
    (hf : ∀ c' m, s.videoWaitingCover.find? c' = some m → c' ≠ c → failing = some c' →
      failing' = some c') :
    Covers failing' (report r { s with
      videoIdToCoverId := s.videoIdToCoverId.erase v
      videoWaitingCover := s.videoWaitingCover.erase c }) := by
  have hkeep : ∀ c' m, (s.videoWaitingCover.erase c).find? c' = some m →
      c' ≠ c ∧ s.videoWaitingCover.find? c' = some m := fun c' m hm => by
    rw [FlatMap.find?_erase] at hm
    split at hm
    · cases hm
    · next hne => exact ⟨hne, hm⟩
  exact
    { nodup := h.nodup
      issued := h.issued
      given := h.given
      files := h.files
      inverse := h.inverse.erase hid
      videos := fun c' m hm => h.videos c' m (hkeep c' m hm).2
      requests := h.requests
      pending := fun c' m hm => by
        obtain ⟨hne, hm⟩ := hkeep c' m hm
        exact (h.pending c' m hm).imp_right (·.imp_right (hf c' m hm hne))
      count := fun id hmem => by
        have hcount := h.count id hmem
        rw [waitingVideos, count_owner_erase hwait] at hcount
        have hreports := count_report s.reports r id
        rw [hr] at hreports
        have hgoal : s.given.count id = ((s.reports ++ [r]).map Report.itemId).count id +
            (s.items.map Prod.fst).count id +
              ((s.videoWaitingCover.erase c).entries.map fun e => e.2.fullId).count id := by
          omega
        exact hgoal }

/-- An `UploadMedia` is answered; the cover that was on its way may be off. -/
theorem answered (h : Covers none s) {requestId : RequestId} {r : CoverRequest}
    (hr : (requestId, r) ∈ s.covering)
    (hf : ∀ m, s.videoWaitingCover.find? r.coverId = some m → m.fullId = r.videoId →
      failing = some r.coverId) :
    Covers failing (s.coverAnswered requestId) :=
  { h with
    requests := ⟨h.requests.1.sublist (List.filter_sublist.map _),
      fun q hq => h.requests.2 q (List.mem_of_mem_filter hq)⟩
    pending := fun c m hm => by
      have hm : s.videoWaitingCover.find? c = some m := hm
      rcases h.pending c m hm with hmem | ⟨q, hq, heq⟩ | hfail
      · exact .inl hmem
      · by_cases hid : q.1 = requestId
        · -- the answer was the one this video waits for
          obtain rfl : q = (requestId, r) :=
            List.inj_on_of_nodup_map h.requests.1 hq hr hid
          have hq : r = { videoId := m.fullId, coverId := c } := heq
          rw [hq] at hf
          exact .inr (.inr (hf m hm rfl))
        · exact .inr (.inl ⟨q, List.mem_filter.mpr ⟨hq, decide_eq_true hid⟩, heq⟩)
      · cases hfail }

/-- An upload is given. -/
theorem join (h : Covers none s) {itemId : FullMsgId} {file : FilePrepareResult}
    (hfree : s.Free itemId) (hfile : file.All CoverIsPhoto) :
    Covers none { s with
      given := s.given ++ [itemId]
      queue := s.queue ++ [({ itemId, file } : Entry)] } := by
  obtain ⟨hissued, hcover, hqueue, hvideo⟩ := hfree
  rw [← map_fst_items] at hqueue
  have hitems : (s.queue ++ [({ itemId, file } : Entry)]).map (fun e => (e.itemId, e.file)) =
      s.items ++ [(itemId, file)] := List.map_append
  have hkeys : ((s.queue ++ [({ itemId, file } : Entry)]).map
      fun e => (e.itemId, e.file)).map Prod.fst = s.items.map Prod.fst ++ [itemId] := by
    rw [hitems, List.map_append]
    rfl
  exact
    { nodup := by
        rw [items, hkeys]
        exact List.concat_eq_append ▸ h.nodup.concat hqueue
      issued := fun id hmem => by
        rw [items, hkeys, List.append_assoc] at hmem
        simp only [List.mem_append, List.mem_singleton] at hmem
        rcases hmem with hmem | rfl | hmem
        · exact h.issued id (List.mem_append_left _ hmem)
        · exact hissued
        · exact h.issued id (List.mem_append_right _ hmem)
      given := fun id hmem => by
        cases List.mem_append.mp hmem with
        | inl hmem => exact h.given id hmem
        | inr hmem =>
            obtain rfl : id = itemId := List.mem_singleton.mp hmem
            exact ⟨hissued, hcover⟩
      files := fun i hi => by
        rw [items, hitems] at hi
        cases List.mem_append.mp hi with
        | inl hi => exact h.files i hi
        | inr hi =>
            rw [List.mem_singleton.mp hi]
            exact ⟨hfile, fun hmem => absurd hmem hcover⟩
      inverse := h.inverse
      videos := fun c m hm => by
        have hm : s.videoWaitingCover.find? c = some m := hm
        obtain ⟨hc, hissued, hcovers, hq⟩ := h.videos c m hm
        rw [items, hkeys]
        refine ⟨hc, hissued, hcovers, fun hmem => ?_⟩
        cases List.mem_append.mp hmem with
        | inl hmem => exact hq hmem
        | inr hmem =>
            exact hvideo (List.mem_map.mpr ⟨(c, m), FlatMap.mem_entries_iff.mpr hm,
              List.mem_singleton.mp hmem⟩)
      requests := h.requests
      pending := fun c m hm => by
        rw [items, hkeys]
        exact (h.pending c m hm).imp_left (List.mem_append_left _)
      count := fun id hmem => by
        have hcount := h.count id hmem
        have hgoal : (s.given ++ [itemId]).count id = (s.reports.map Report.itemId).count id +
            (s.items.map Prod.fst ++ [itemId]).count id + s.waitingVideos.count id := by
          rw [List.count_append, List.count_append]
          omega
        rw [items, hkeys]
        exact hgoal }

end Covers

/-! ## Calls and events -/

/-- An outcome that keeps the covers and the counts. -/
def Kept : Except Stop (Uploader × List Call) → Prop
  | .ok (s, calls) => Covers (failingOf calls) s
  | .error _ => True

theorem Kept.ok {calls : List Call} (h : Covers none s) : Kept (.ok (s, calls)) := h.weaken _

/-- The branch of `failed` that forgets a video: the cover it waits for is still in the
queue. -/
def failsWaitedCover (itemId : FullMsgId) (s : Uploader) : Bool :=
  (s.findEntry itemId).isSome && s.videoWaitingCover.contains itemId

theorem failedRest_kept (h : Covers none s) (itemId : FullMsgId) :
    Kept (.ok (s.failedRest itemId)) :=
  .ok (h.transfer { Untouched.refl s with })

theorem failed_kept {itemId : FullMsgId} (h : Covers (some itemId) s)
    (hok : s.failsWaitedCover itemId = false) : Kept (.ok (s.failed itemId)) := by
  rw [failed]
  split
  · next entry hentry =>
    obtain ⟨he, hid⟩ := mem_of_findEntry hentry
    have hwait : s.videoWaitingCover.find? itemId = none := by
      rw [failsWaitedCover, hentry, Option.isSome_some, Bool.true_and] at hok
      exact FlatMap.contains_eq_false_iff.mp hok
    obtain ⟨r, hr, hnotify⟩ := notifyFailed_eq entry
      { s with queue := s.queue.eraseP (·.itemId = itemId) }
    have hperm : s.items.Perm ((itemId, entry.file) ::
        { s with queue := s.queue.eraseP (·.itemId = itemId) }.items) := by
      have hmem : (itemId, entry.file) ∈ s.items :=
        List.mem_map.mpr ⟨entry, he, by rw [hid]⟩
      refine (FlatMap.perm_cons_filter h.nodup hmem).trans (.of_eq ?_)
      rw [items, items, eraseP_eq_filter (map_fst_items s ▸ h.nodup), List.filter_map]
      rfl
    dsimp only
    rw [hnotify]
    exact failedRest_kept (h.leave (fun id hmem => (Option.some.inj hmem).symm) hperm hwait
      (hr.trans hid)) itemId
  · next hentry =>
    split
    · next coverId hcover =>
      obtain ⟨video, hvideo, hfull⟩ := (h.inverse _ _).mp hcover
      -- a video is no cover, so it was not waited for
      have hwait : ∀ m, s.videoWaitingCover.find? itemId ≠ some m := fun m hm =>
        (h.videos _ _ hvideo).2.2.1 (hfull ▸ (h.videos _ _ hm).1)
      dsimp only
      rw [hvideo]
      refine h.settle hcover hvideo rfl fun c' m hm _ hfail => ?_
      exact absurd (Option.some.inj hfail ▸ hm) (hwait m)
    · next hcover =>
      split
      · next video hvideo =>
        refine failedRest_kept (h.settle ((h.inverse _ _).mpr ⟨video, hvideo, rfl⟩) hvideo rfl
          fun c' m _ hne hfail => ?_) itemId
        exact absurd (Option.some.inj hfail).symm hne
      · next hvideo =>
        refine failedRest_kept { h with pending := fun c m hm => ?_ } itemId
        refine (h.pending c m hm).imp_right (·.imp_right fun hfail => ?_)
        rw [← Option.some.inj hfail, hvideo] at hm
        cases hm

theorem ready_fullId (entry : Entry) : entry.ready.fullId = entry.itemId := by
  rw [Entry.ready]
  split <;> rfl

theorem finishFront_kept (h : Covers none s) : Kept s.finishFront := by
  rw [finishFront]
  split
  · trivial
  · next entry queue hqueue =>
    have hitems : s.items = (entry.itemId, entry.file) :: { s with queue }.items := by
      rw [items, hqueue]
      rfl
    have hfile := h.files (entry.itemId, entry.file) (hitems ▸ .head _)
    have hleave {r : Report} (hwait : s.videoWaitingCover.find? entry.itemId = none)
        (hr : r.itemId = entry.itemId) : Covers none ({ s with queue }.report r) :=
      h.leave nofun (.of_eq hitems) hwait hr
    have hnot (htype : entry.file.type ≠ .photo) :
        s.videoWaitingCover.find? entry.itemId = none := by
      cases hfind : s.videoWaitingCover.find? entry.itemId with
      | none => rfl
      | some m => exact absurd (hfile.2 (h.videos _ _ hfind).1) htype
    dsimp only
    split
    · split
      · next video hvideo => exact .ok (h.handOver hitems hvideo (ready_fullId entry))
      · next hvideo => exact .ok (hleave hvideo (ready_fullId entry))
    · next htype =>
      split
      · split
        · next cover hcover =>
          rw [uploadVideoCover, nextLocalMessageId]
          split
          · next hlt =>
            obtain ⟨hphoto, hcovers⟩ := hfile.1
            exact .ok (h.await hitems htype (ready_fullId entry)
              ⟨hcovers cover hcover, hphoto cover hcover⟩ hlt rfl)
          · trivial
        · exact .ok (hleave (hnot htype) (ready_fullId entry))
      · exact .ok (hleave (hnot htype) rfl)

theorem maybeFinishFront_kept (h : Covers none s) : Kept s.maybeFinishFront := by
  rw [maybeFinishFront]
  split
  · exact .ok h
  · split
    · have hfinish := finishFront_kept h
      cases hs : s.finishFront with
      | error e => trivial
      | ok r =>
          rw [hs] at hfinish
          exact Covers.append hfinish _
    · exact .ok h

theorem exec_kept {call : Call} {calls : List Call} (h : Covers (failingOf (call :: calls)) s)
    (hok : ∀ itemId, call = .failed itemId → s.failsWaitedCover itemId = false) (now : Time) :
    Kept (s.exec now call) := by
  cases call with
  | failed itemId => exact failed_kept h (hok itemId rfl)
  | failedRest itemId => exact failedRest_kept h itemId
  | maybeFinishFront => exact maybeFinishFront_kept h
  | maybeSend => exact .ok (h.transfer (untouched_maybeSend s))
  | sendNext used => exact .ok (h.transfer (untouched_sendNext now used s))
  | sendTo used dcIndex =>
      rw [exec]
      cases hsend : s.sendTo now used dcIndex with
      | error e => trivial
      | ok r => exact .ok (h.transfer (untouched_sendTo h.nodup hsend))

theorem untouched_finishRequest {requestId : RequestId} {request : Request}
    (h : s.finishRequest requestId = .ok (request, s')) : Untouched s s' := by
  rw [finishRequest] at h
  split at h
  · cases h
  · obtain ⟨-, rfl⟩ := Prod.mk.inj (Except.ok.inj h)
    exact { Untouched.refl s with }

theorem partLoaded_kept (h : Covers none s) (now : Time) (result : Bool)
    (requestId : RequestId) : Kept (s.partLoaded now result requestId) := by
  simp only [partLoaded, bind, Except.bind]
  cases hfinish : s.finishRequest requestId with
  | error e => trivial
  | ok r =>
      obtain ⟨request, s₁⟩ := r
      have hs₁ := h.transfer (untouched_finishRequest hfinish)
      cases result with
      | false => exact .ok hs₁
      | true =>
          simp only [Bool.not_true, Bool.false_eq_true, if_false]
          split
          · trivial
          · next entry hentry =>
            cases hnote : s₁.noteDuration now request with
            | error e => trivial
            | ok s₂ =>
                have hnoted := untouched_noteDuration hnote
                have hs₂ := hs₁.transfer hnoted
                obtain ⟨he, -⟩ := mem_of_findEntry hentry
                -- the entry is still there: noting the time moves no item
                obtain ⟨entry', he', hpair⟩ : ∃ e ∈ s₂.queue,
                    (e.itemId, e.file) = (entry.itemId, entry.file) := by
                  have : (entry.itemId, entry.file) ∈ s₂.items :=
                    hnoted.items ▸ List.mem_map_of_mem he
                  exact List.mem_map.mp this
                obtain ⟨hid, hfile⟩ := Prod.mk.inj hpair
                refine .ok (hs₂.transfer (untouched_setEntry hs₂.nodup he' ?_ ?_))
                · cases request.docPart <;> exact hid.symm
                · cases request.docPart <;> exact hfile.symm

theorem coverLoaded_kept (h : Covers none s) {requestId : RequestId} {r : CoverRequest}
    (hr : (requestId, r) ∈ s.covering) (photo : UInt64) :
    Covers none ((s.coverAnswered requestId).coverLoaded r.videoId photo) := by
  have hids : (s.coverAnswered requestId).videoIdToCoverId = s.videoIdToCoverId := rfl
  rw [coverLoaded, hids]
  cases hcover : s.videoIdToCoverId.find? r.videoId with
  | none =>
      refine h.answered hr fun m hm hfull => ?_
      rw [(h.inverse _ _).mpr ⟨m, hm, hfull⟩] at hcover
      cases hcover
  | some coverId =>
      obtain ⟨video, hvideo, hfull⟩ := (h.inverse _ _).mp hcover
      have hwaiting : (s.coverAnswered requestId).videoWaitingCover = s.videoWaitingCover := rfl
      dsimp only
      rw [hwaiting, hvideo]
      -- settle the video first, then its answer is no one's
      have hsettled : Covers none _ := h.settle hcover hvideo
        (r := .documentReady { video with videoCover := some photo }) rfl nofun
      refine hsettled.answered hr fun m hm hfull => ?_
      have := (hsettled.inverse _ _).mpr ⟨m, hm, hfull⟩
      rw [show (report _ { s with
        videoIdToCoverId := s.videoIdToCoverId.erase r.videoId
        videoWaitingCover := s.videoWaitingCover.erase coverId }).videoIdToCoverId =
          s.videoIdToCoverId.erase r.videoId from rfl, FlatMap.find?_erase_self] at this
      cases this

/-- Covers come as photos. -/
def Event.PhotoCovers : Event → Prop
  | .upload _ file => file.All CoverIsPhoto
  | _ => True

theorem mem_of_lookup {V : Type} {l : List (RequestId × V)} {id : RequestId} {v : V}
    (h : l.lookup id = some v) : (id, v) ∈ l := by
  obtain ⟨before, after, rfl, -⟩ := List.lookup_eq_some_iff.mp h
  exact List.mem_append_right _ (.head _)

theorem handle_kept (h : Covers none s) {e : Event} (hp : e.Possible s) (hphoto : e.PhotoCovers)
    (now : Time) : Kept (s.handle now e) := by
  cases e with
  | upload itemId file => exact .ok (h.join hp hphoto)
  | cancel itemId => exact .ok h
  | cancelAll => exact .ok h
  | pause itemId => exact .ok (h.transfer { Untouched.refl s with })
  | unpause => exact .ok (h.transfer { Untouched.refl s with })
  | stopSessions => exact .ok (h.transfer (untouched_stopSessions s))
  | partLoaded result requestId =>
      have hack : Untouched s (s.acknowledge requestId) := by
        rw [acknowledge]
        split
        · exact .refl s
        · exact { Untouched.refl s with }
      cases result with
      | false =>
          exact partLoaded_kept (h.transfer (show Untouched s (s.answered requestId) from
            { Untouched.refl s with })) now false _
      | true =>
          have hanswered : Untouched s ((s.acknowledge requestId).answered requestId) :=
            { hack with }
          exact partLoaded_kept (h.transfer hanswered) now true _
  | partFailed requestId =>
      simp only [handle, partFailed, bind, Except.bind]
      cases hfinish : (s.answered requestId).finishRequest requestId with
      | error e => trivial
      | ok r =>
          have hanswered : Untouched s (s.answered requestId) := { Untouched.refl s with }
          exact .ok ((h.transfer hanswered).transfer (untouched_finishRequest hfinish))
  | coverLoaded requestId photo =>
      simp only [handle]
      cases hr : s.covering.lookup requestId with
      | none => exact .ok h
      | some r =>
          cases photo with
          | none => exact h.answered (mem_of_lookup hr) fun _ _ _ => rfl
          | some photo => exact .ok (coverLoaded_kept h (mem_of_lookup hr) photo)
  | coverFailed requestId =>
      simp only [handle]
      cases hr : s.covering.lookup requestId with
      | none => exact .ok h
      | some r => exact h.answered (mem_of_lookup hr) fun _ _ _ => rfl
  | nextTimer => exact .ok (h.transfer { Untouched.refl s with })
  | stopSessionsTimer =>
      have htimer : Untouched s { s with stopSessionsTimer := false } :=
        { Untouched.refl s with }
      exact .ok ((h.transfer htimer).transfer (untouched_stopSessions _))
  | onMain => exact .ok (h.transfer { Untouched.refl s with })
  | localMessageId =>
      rw [handle, nextLocalMessageId]
      split
      · have hle : s.localMessageIdCounter ≤ s.localMessageIdCounter + 1 :=
          Int.le_add_one (le_refl _)
        exact .ok { h with
          issued := fun id hid => (h.issued id hid).mono hle
          given := fun id hid => ⟨(h.given id hid).1.mono hle, (h.given id hid).2⟩
          videos := fun c m hm => by
            obtain ⟨hc, hissued, hrest⟩ := h.videos c m hm
            exact ⟨hc, hissued.mono hle, hrest⟩ }
      · trivial

/-! ## Runs -/

/-- Covers come as photos, and none of them fails in the queue while its video waits. -/
def CoversLast (c : Config) : Action → Prop
  | .run _ => ∀ itemId, failingOf c.calls = some itemId →
      c.uploader.failsWaitedCover itemId = false
  | .event _ e => e.PhotoCovers

/-- Covers come as photos. -/
def PhotoCovers (_ : Config) : Action → Prop
  | .run _ => True
  | .event _ e => e.PhotoCovers

theorem cancelAllNext_kept (h : Covers none s) :
    Kept (.ok (s.cancelAllNext.1, s.cancelAllNext.2.1)) := by
  rw [cancelAllNext]
  split
  · exact .ok h
  · next hqueue =>
    have hcleared : Untouched s ({ s with queue := [] } : Uploader).cancelAllRequests :=
      { Untouched.refl s with
        items := by
          rw [items, items, hqueue]
          rfl }
    exact .ok (h.transfer { hcleared.trans (untouched_stopSessions _) with })

theorem covers_next {c c' : Config} {a : Action} (h : Covers (failingOf c.calls) c.uploader)
    (hp : a.Possible c) (hok : CoversLast c a) (hnext : next c a = .ok c') :
    Covers (failingOf c'.calls) c'.uploader := by
  obtain ⟨s, calls, cancelling⟩ := c
  cases a with
  | run now =>
      cases calls with
      | nil =>
          cases cancelling with
          | true =>
              obtain rfl := Except.ok.inj hnext
              exact cancelAllNext_kept h
          | false =>
              obtain rfl := Except.ok.inj hnext
              exact h
      | cons call calls =>
          have hs := exec_kept h (fun itemId heq => hok itemId (heq ▸ rfl)) now
          simp only [next, bind, Except.bind] at hnext
          cases hexec : s.exec now call with
          | error e =>
              rw [hexec] at hnext
              cases hnext
          | ok r =>
              rw [hexec] at hs hnext
              obtain rfl := Except.ok.inj hnext
              exact Covers.append hs calls
  | event now e =>
      obtain ⟨⟨rfl, rfl⟩, hp⟩ := hp
      have hs := handle_kept h hp hok now
      simp only [next, bind, Except.bind] at hnext
      cases hhandle : s.handle now e with
      | error e =>
          rw [hhandle] at hnext
          cases hnext
      | ok r =>
          rw [hhandle] at hs hnext
          obtain rfl := Except.ok.inj hnext
          exact hs

theorem covers_init : Covers none {} where
  nodup := List.nodup_nil
  issued := nofun
  given := nofun
  files := nofun
  inverse := fun v c => ⟨nofun, fun ⟨_, h, _⟩ => (by cases h)⟩
  videos := nofun
  requests := ⟨List.nodup_nil, nofun⟩
  pending := nofun
  count := fun _ _ => rfl

/-- What holds between two events: no item is reported more often than it was given, an
item that was not reported is in the queue or is a video whose cover is in the queue or on
its way, and the two maps are inverse to each other. -/
structure EndsOnce (s : Uploader) : Prop where
  atMostOnce : ∀ id ∈ s.given,
    (s.reports.map Report.itemId).count id ≤ s.given.count id
  unreported : ∀ id ∈ s.given, (s.reports.map Report.itemId).count id < s.given.count id →
    id ∈ s.queue.map Entry.itemId ∨
    ∃ c m, s.videoWaitingCover.find? c = some m ∧ m.fullId = id ∧
      (c ∈ s.queue.map Entry.itemId ∨ ∃ r ∈ s.covering, r.2 = { videoId := id, coverId := c })
  inverse : Inverse s.videoIdToCoverId s.videoWaitingCover UploadedMedia.fullId

theorem Covers.endsOnce (h : Covers none s) : EndsOnce s where
  atMostOnce id hid := by
    have := h.count id (h.given id hid).2
    omega
  unreported id hid hlt := by
    have hcount := h.count id (h.given id hid).2
    rw [map_fst_items] at hcount
    by_cases hqueue : id ∈ s.queue.map Entry.itemId
    · exact .inl hqueue
    · rw [List.count_eq_zero.mpr hqueue] at hcount
      have hwaiting : id ∈ s.waitingVideos := List.count_pos_iff.mp (by omega)
      obtain ⟨⟨c, m⟩, hmem, hfull⟩ := List.mem_map.mp hwaiting
      have hm := FlatMap.mem_entries_iff.mp hmem
      have hfull : m.fullId = id := hfull
      refine .inr ⟨c, m, hm, hfull, ?_⟩
      rcases h.pending c m hm with hmem | hcovering | hfail
      · exact .inl (map_fst_items s ▸ hmem)
      · exact .inr (hfull ▸ hcovering)
      · cases hfail
  inverse := h.inverse

/-- **Every upload ends once**, in every run in which no cover fails in the queue. -/
theorem endsOnce_of_reached {c : Config} (h : system.Reached CoversLast c) (hidle : c.Idle) :
    c.uploader.EndsOnce := by
  have hcovers : Covers (failingOf c.calls) c.uploader :=
    h.invariant (fun _ hc => hc ▸ covers_init)
      fun _ _ _ hc hok hstep => covers_next hc hstep.1 hok hstep.2
  rw [hidle.1] at hcovers
  exact hcovers.endsOnce

/-- A video in one part with a cover in one part. -/
def coveredVideo : FilePrepareResult where
  id := 7
  type := .file
  content := .replicate 1000 1
  filesize := 1000
  videoCover := some { id := 8, type := .photo, fileparts := [.replicate 500 2] }

/-- The video is stored, and its cover is in the queue. -/
def uploadVideo : List Action :=
  [.event 0 (.upload { peer := { value := 1 }, msg := 5 } coveredVideo)] ++
    List.replicate 6 (.run 1) ++
    [.event 100 (.partLoaded true 1)] ++ List.replicate 12 (.run 101)

theorem photoCovers_coveredVideo : coveredVideo.All CoverIsPhoto := by
  refine .intro (fun cover hcover => ?_) fun cover hcover => .intro (fun c hc => ?_) fun c hc => ?_
  · rw [← Option.some.inj hcover]
  · rw [← Option.some.inj hcover] at hc
    cases hc
  · rw [← Option.some.inj hcover] at hc
    cases hc

theorem photoCovers_of_mem {a : Action} {rest : List Action}
    (hrest : ∀ a ∈ rest, ∀ c, PhotoCovers c a) (ha : a ∈ uploadVideo ++ rest) (c : Config) :
    PhotoCovers c a := by
  simp only [uploadVideo, List.mem_append, List.mem_singleton, List.mem_replicate] at ha
  rcases ha with ((((rfl | ⟨-, rfl⟩) | rfl) | ⟨-, rfl⟩)) | ha
  · exact photoCovers_coveredVideo
  · trivial
  · trivial
  · trivial
  · exact hrest a ha c

/-- The condition of `CoversLast` on the calls. -/
def coversLast (c : Config) (_ : Action) : Bool :=
  (failingOf c.calls).all fun itemId => !c.uploader.failsWaitedCover itemId

/-- The cover is stored and becomes a photo. -/
def finishCover : List Action :=
  [.event 200 (.partLoaded true 2)] ++ List.replicate 6 (.run 201) ++
    [.event 300 (.coverLoaded 3 (some 9))]

theorem endsOnce_uploadVideo :
    ∃ c, Config.after coversLast {} (uploadVideo ++ finishCover) = some c ∧
      (c.uploader.reports.map Report.itemId) = c.uploader.given ∧ c.uploader.EndsOnce := by
  have hafter : ((Config.after coversLast {} (uploadVideo ++ finishCover)).map fun c =>
      (decide c.Idle, decide (c.uploader.reports.map Report.itemId = c.uploader.given))) =
        some (true, true) := by
    decide +kernel
  obtain ⟨c, hc, hobs⟩ := Option.map_eq_some_iff.mp hafter
  obtain ⟨hidle, hreports⟩ := Prod.mk.inj hobs
  have hreached : system.Reached CoversLast c := by
    refine reached_after (.init rfl) (fun a ha c hallowed => ?_) hc
    have hphoto := photoCovers_of_mem (fun a ha c => by
      simp only [finishCover, List.mem_append, List.mem_singleton, List.mem_replicate] at ha
      rcases ha with (rfl | ⟨-, rfl⟩) | rfl <;> trivial) ha c
    cases a with
    | run now =>
        intro itemId hfail
        rw [coversLast, hfail, Option.all_some, Bool.not_eq_true'] at hallowed
        exact hallowed
    | event now e => exact hphoto
  exact ⟨c, hc, of_decide_eq_true hreports,
    endsOnce_of_reached hreached (of_decide_eq_true hidle)⟩

/-- A part of the cover fails: the video is forgotten. -/
def failCover : List Action := [.event 200 (.partFailed 2)] ++ List.replicate 6 (.run 201)

/-- **A video whose cover fails in the queue is never reported.** -/
theorem not_endsOnce :
    ¬ ∀ c, system.Reached PhotoCovers c → c.Idle → c.uploader.EndsOnce := by
  intro hall
  have hafter : ((Config.after allowAll {} (uploadVideo ++ failCover)).map fun c =>
      (decide c.Idle, decide (c.uploader.given = [{ peer := { value := 1 }, msg := 5 }] ∧
        c.uploader.queue.length = 0 ∧ c.uploader.covering.length = 0 ∧
        (c.uploader.reports.map Report.itemId).count { peer := { value := 1 }, msg := 5 } = 0))) =
        some (true, true) := by
    decide +kernel
  obtain ⟨c, hc, hobs⟩ := Option.map_eq_some_iff.mp hafter
  obtain ⟨hidle, hstate⟩ := Prod.mk.inj hobs
  obtain ⟨hgiven, hqueue, hcovering, hreports⟩ := of_decide_eq_true hstate
  have hreached : system.Reached PhotoCovers c := by
    refine reached_after (.init rfl) (fun a ha c _ => photoCovers_of_mem (fun a ha c => ?_) ha c) hc
    simp only [failCover, List.mem_append, List.mem_singleton, List.mem_replicate] at ha
    rcases ha with rfl | ⟨-, rfl⟩ <;> trivial
  have hends := hall c hreached (of_decide_eq_true hidle)
  have hempty : c.uploader.queue.map Entry.itemId = [] := by
    rw [List.map_eq_nil_iff, ← List.length_eq_zero_iff, hqueue]
  have hnone : c.uploader.covering = [] := List.length_eq_zero_iff.mp hcovering
  have hlt : (c.uploader.reports.map Report.itemId).count { peer := { value := 1 }, msg := 5 } <
      c.uploader.given.count { peer := { value := 1 }, msg := 5 } := by
    rw [hreports, hgiven]
    decide
  rcases hends.unreported _ (hgiven ▸ .head _) hlt with hmem | ⟨_, _, _, _, hmem | ⟨r, hr, _⟩⟩
  · rw [hempty] at hmem
    cases hmem
  · rw [hempty] at hmem
    cases hmem
  · rw [hnone] at hr
    cases hr

end Uploader

end MessengerClient
