import MessengerClient.Lib.Drops
import MessengerClient.Lib.Runs
import MessengerClient.Streaming.Slices
import Mathlib

/-!
# MessengerClient.Streaming.Downloader

The offsets that a downloader requests from `Reader` of
`media/streaming/media_streaming_reader.cpp`.

They come in batches, and an offset that is not greater than the one before it tells that the
downloader was changed.  The offsets before it are stale then, but only the first such place is
looked for, and none at all if no offset was waiting: `offsets` is empty after it was moved from
(`enqueueDownloaderOffsets_iff`).
-/

namespace MessengerClient

namespace Streaming

open Drops

def kDownloaderRequestsLimit : Nat := 4

/-- The fields of `Reader` that serve the downloader, and the offsets the loader was asked for. -/
structure Reader where
  attachedDownloader : Option Nat := none
  offsetsForDownloader : List Nat := []
  downloaderOffsetsRequested : Finset Nat := ∅
  downloaderReadCache : FlatMap Nat (Option PartsMap) := ∅
  downloaderOffsetRequests : List Nat := []
  downloaderOffsetAcks : List Nat := []
  loaded : List Nat := []

namespace Reader

variable (reader : Reader)

/-! ## Requests from the main thread -/

def cancelForDownloader (downloader : Nat) : Reader :=
  if reader.attachedDownloader = some downloader then
    { reader with downloaderOffsetRequests := [], attachedDownloader := none }
  else reader

def loadForDownloader (downloader offset : Nat) : Reader :=
  let reader :=
    if reader.attachedDownloader ≠ some downloader then
      let reader :=
        match reader.attachedDownloader with
        | some attached => reader.cancelForDownloader attached
        | none => reader
      { reader with attachedDownloader := some downloader }
    else reader
  { reader with downloaderOffsetRequests := reader.downloaderOffsetRequests ++ [offset] }

def doneForDownloader (offset : Nat) : Reader :=
  { reader with downloaderOffsetAcks := reader.downloaderOffsetAcks ++ [offset] }

/-! ## Offsets that are waiting -/

/-- What a deque is after it was moved from. -/
def movedFrom (_ : List Nat) : List Nat := []

/-- `none` if `Expects` fails. -/
def checkForDownloaderChange (checkItemsCount : Nat) : Option Reader :=
  if checkItemsCount ≤ reader.offsetsForDownloader.length then
    let first := reader.offsetsForDownloader.length - checkItemsCount
    match adjacentFind (fun first second => second ≤ first)
        (reader.offsetsForDownloader.drop first) with
    | none => some reader
    | some changed =>
      some { reader with
        offsetsForDownloader := reader.offsetsForDownloader.drop (first + changed + 1)
        downloaderReadCache := ∅
        downloaderOffsetAcks := [] }
  else none

def enqueueDownloaderOffsets : Option Reader :=
  let offsets := reader.downloaderOffsetRequests
  let reader := { reader with downloaderOffsetRequests := [] }
  if offsets.isEmpty then some reader
  else if !reader.offsetsForDownloader.isEmpty then
    { reader with
      offsetsForDownloader := reader.offsetsForDownloader ++ offsets
    }.checkForDownloaderChange (offsets.length + 1)
  else
    { reader with offsetsForDownloader := offsets }.checkForDownloaderChange
      (movedFrom offsets).length

/-- The offsets are dropped until one whose part is neither in the slices nor in the cache. -/
def checkForDownloaderReadyOffsets (available : Nat → Bool) : Reader :=
  { reader with offsetsForDownloader := reader.offsetsForDownloader.dropWhile available }

def pruneDoneDownloaderRequests : Reader :=
  { reader with
    offsetsForDownloader := reader.downloaderOffsetAcks.foldl List.erase
      reader.offsetsForDownloader
    downloaderOffsetsRequested := reader.downloaderOffsetAcks.foldl Finset.erase
      reader.downloaderOffsetsRequested
    downloaderOffsetAcks := [] }

def sendDownloaderRequest (offset : Nat) : Reader :=
  if offset ∈ reader.downloaderOffsetsRequested then reader
  else
    { reader with
      downloaderOffsetsRequested := insert offset reader.downloaderOffsetsRequested
      loaded := reader.loaded ++ [offset] }

/-- The offsets whose slice is in the cache wait for it. -/
def sendDownloaderRequests (waitForCachedSlice : Nat → Bool) : Reader :=
  ((reader.offsetsForDownloader.take kDownloaderRequestsLimit).filter
    (!waitForCachedSlice ·)).foldl sendDownloaderRequest reader

end Reader

/-! ## Runs -/

inductive ReaderAction where
  | loadForDownloader (downloader offset : Nat)
  | doneForDownloader (offset : Nat)
  | cancelForDownloader (downloader : Nat)
  | enqueueDownloaderOffsets
  | checkForDownloaderReadyOffsets (available : Nat → Bool)
  | pruneDoneDownloaderRequests
  | sendDownloaderRequests (waitForCachedSlice : Nat → Bool)
  /-- Slices come from the cache, are asked for, and are pruned. -/
  | readCache (downloaderReadCache : FlatMap Nat (Option PartsMap))

namespace Reader

def act (reader : Reader) : ReaderAction → Option Reader
  | .loadForDownloader downloader offset => some (reader.loadForDownloader downloader offset)
  | .doneForDownloader offset => some (reader.doneForDownloader offset)
  | .cancelForDownloader downloader => some (reader.cancelForDownloader downloader)
  | .enqueueDownloaderOffsets => reader.enqueueDownloaderOffsets
  | .checkForDownloaderReadyOffsets available =>
    some (reader.checkForDownloaderReadyOffsets available)
  | .pruneDoneDownloaderRequests => some reader.pruneDoneDownloaderRequests
  | .sendDownloaderRequests waitForCachedSlice =>
    some (reader.sendDownloaderRequests waitForCachedSlice)
  | .readCache downloaderReadCache => some { reader with downloaderReadCache }

def system : System Reader ReaderAction where
  init reader := reader = {}
  step reader action reader' := reader.act action = some reader'

/-- The offsets that are waiting, with those that were requested behind them. -/
def allOffsets (reader : Reader) : List Nat :=
  reader.offsetsForDownloader ++ reader.downloaderOffsetRequests

/-- What enqueueing is to do: stale offsets are dropped, and with them what was cached and
acknowledged. -/
structure StaleDropped (reader reader' : Reader) : Prop where
  increasing : reader'.offsetsForDownloader.IsChain (· < ·)
  kept : AfterLastDrop reader.allOffsets reader'.offsetsForDownloader
  cleared : (reader'.downloaderReadCache, reader'.downloaderOffsetAcks) =
    if reader'.offsetsForDownloader = reader.allOffsets then
      (reader.downloaderReadCache, reader.downloaderOffsetAcks)
    else (∅, [])

/-- The downloader was changed once at most, and not at all if no offset was waiting. -/
def OneChange (reader : Reader) : Prop :=
  (reader.offsetsForDownloader = [] → ∀ i, ¬IsDrop reader.allOffsets i) ∧
    ∀ i j, IsDrop reader.allOffsets i → IsDrop reader.allOffsets j → i = j

/-- The condition is asked of each batch. -/
def Allowed (reader : Reader) : ReaderAction → Prop
  | .enqueueDownloaderOffsets => reader.OneChange
  | _ => True

variable {reader reader' : Reader} {action : ReaderAction}

/-! ## Waiting offsets grow -/

@[simp] theorem offsetsForDownloader_cancelForDownloader (reader : Reader) (downloader : Nat) :
    (reader.cancelForDownloader downloader).offsetsForDownloader =
      reader.offsetsForDownloader := by
  rw [cancelForDownloader]
  split <;> rfl

@[simp] theorem offsetsForDownloader_loadForDownloader (reader : Reader)
    (downloader offset : Nat) :
    (reader.loadForDownloader downloader offset).offsetsForDownloader =
      reader.offsetsForDownloader := by
  grind [loadForDownloader, offsetsForDownloader_cancelForDownloader]

@[simp] theorem offsetsForDownloader_foldl_send (reader : Reader) (offsets : List Nat) :
    (offsets.foldl sendDownloaderRequest reader).offsetsForDownloader =
      reader.offsetsForDownloader := by
  induction offsets generalizing reader with
  | nil => rfl
  | cons offset offsets ih =>
    rw [List.foldl_cons, ih, sendDownloaderRequest]
    split <;> rfl

theorem foldl_erase_sublist (offsets done : List Nat) :
    (done.foldl List.erase offsets).Sublist offsets := by
  induction done generalizing offsets with
  | nil => exact List.Sublist.refl _
  | cons offset done ih => exact (ih _).trans List.erase_sublist

/-- **But for enqueueing**, offsets that are waiting only go away. -/
theorem act_sublist (h : reader.act action = some reader')
    (hne : action ≠ .enqueueDownloaderOffsets) :
    reader'.offsetsForDownloader.Sublist reader.offsetsForDownloader := by
  cases action with
  | enqueueDownloaderOffsets => exact absurd rfl hne
  | loadForDownloader downloader offset =>
    obtain rfl := Option.some_inj.mp h
    simp
  | doneForDownloader offset =>
    obtain rfl := Option.some_inj.mp h
    exact List.Sublist.refl _
  | cancelForDownloader downloader =>
    obtain rfl := Option.some_inj.mp h
    simp
  | checkForDownloaderReadyOffsets available =>
    obtain rfl := Option.some_inj.mp h
    exact List.dropWhile_sublist _
  | pruneDoneDownloaderRequests =>
    obtain rfl := Option.some_inj.mp h
    exact foldl_erase_sublist _ _
  | sendDownloaderRequests waitForCachedSlice =>
    obtain rfl := Option.some_inj.mp h
    simp [sendDownloaderRequests]
  | readCache downloaderReadCache =>
    obtain rfl := Option.some_inj.mp h
    exact List.Sublist.refl _

/-! ## What enqueueing does -/

/-- How many of the offsets in front are not looked at. -/
def unchecked (reader : Reader) : Nat :=
  if reader.offsetsForDownloader.isEmpty then reader.downloaderOffsetRequests.length
  else reader.offsetsForDownloader.length - 1

/-- **Enqueueing** never fails: it drops what is up to the first drop of those it looks at. -/
theorem enqueueDownloaderOffsets_eq (hrequests : reader.downloaderOffsetRequests ≠ []) :
    reader.enqueueDownloaderOffsets =
      match adjacentFind (fun first second => second ≤ first)
          (reader.allOffsets.drop reader.unchecked) with
      | none => some { reader with
          offsetsForDownloader := reader.allOffsets
          downloaderOffsetRequests := [] }
      | some changed => some { reader with
          offsetsForDownloader := reader.allOffsets.drop (reader.unchecked + changed + 1)
          downloaderOffsetRequests := []
          downloaderReadCache := ∅
          downloaderOffsetAcks := [] } := by
  have hempty : reader.downloaderOffsetRequests.isEmpty = false := by simpa using hrequests
  rw [enqueueDownloaderOffsets]
  simp only [hempty]
  by_cases hwaiting : reader.offsetsForDownloader = []
  · have hall : reader.allOffsets = reader.downloaderOffsetRequests := by
      rw [allOffsets, hwaiting, List.nil_append]
    have hunchecked : reader.unchecked = reader.downloaderOffsetRequests.length := by
      simp [unchecked, hwaiting]
    simp [hwaiting, checkForDownloaderChange, movedFrom, hall, hunchecked]
  · have hlength : 0 < reader.offsetsForDownloader.length := List.length_pos_iff.mpr hwaiting
    have hunchecked : reader.offsetsForDownloader.length +
        reader.downloaderOffsetRequests.length - (reader.downloaderOffsetRequests.length + 1) =
          reader.unchecked := by
      simp only [unchecked, List.isEmpty_iff, hwaiting, if_false]
      omega
    have hcount : reader.downloaderOffsetRequests.length + 1 ≤
        reader.offsetsForDownloader.length + reader.downloaderOffsetRequests.length := by
      omega
    have hnonempty : reader.offsetsForDownloader.isEmpty = false := by simpa using hwaiting
    simp only [checkForDownloaderChange, List.length_append, hunchecked, hcount, if_true,
      hnonempty, Bool.not_false, Bool.false_eq_true, if_false, allOffsets]

/-- Waiting offsets that grow drop at the earliest at their end. -/
theorem unchecked_le_of_isDrop (h : reader.offsetsForDownloader.IsChain (· < ·))
    (hwaiting : reader.offsetsForDownloader ≠ []) {i : Nat} (hdrop : IsDrop reader.allOffsets i) :
    reader.unchecked ≤ i := by
  simp only [unchecked, List.isEmpty_iff, hwaiting, if_false]
  by_contra hlt
  rw [allOffsets, isDrop_append_of_lt (by omega)] at hdrop
  exact isChain_iff.mp h i hdrop

/-- **One batch.**  From offsets that grow, stale ones are dropped if and only if the downloader was
changed once at most. -/
theorem staleDropped_iff (h : reader.offsetsForDownloader.IsChain (· < ·)) :
    ∃ reader', reader.enqueueDownloaderOffsets = some reader' ∧
      (StaleDropped reader reader' ↔ reader.OneChange) := by
  by_cases hrequests : reader.downloaderOffsetRequests = []
  · have hall : reader.allOffsets = reader.offsetsForDownloader := by
      rw [allOffsets, hrequests, List.append_nil]
    refine ⟨{ reader with downloaderOffsetRequests := [] }, ?_, ?_⟩
    · simp [enqueueDownloaderOffsets, hrequests]
    · have hnone := isChain_iff.mp h
      rw [← hall] at hnone
      have hkept : AfterLastDrop reader.allOffsets reader.offsetsForDownloader := by
        rw [hall]
        exact afterLastDrop_self h
      refine iff_of_true ⟨h, hkept, (if_pos hall.symm).symm⟩ ?_
      exact ⟨fun _ => hnone, fun i _ hi => absurd hi (hnone i)⟩
  rw [enqueueDownloaderOffsets_eq hrequests]
  cases hfind : adjacentFind (fun first second => second ≤ first)
      (reader.allOffsets.drop reader.unchecked) with
  | none =>
    refine ⟨_, rfl, ?_⟩
    rw [adjacentFind_eq_none] at hfind
    by_cases hwaiting : reader.offsetsForDownloader = []
    · -- nothing was looked at
      constructor
      · intro hstale
        have hnone := isChain_iff.mp hstale.increasing
        exact ⟨fun _ => hnone, fun i _ hi => absurd hi (hnone i)⟩
      · intro hone
        have hchain := isChain_iff.mpr (hone.1 hwaiting)
        exact ⟨hchain, afterLastDrop_self hchain, (if_pos rfl).symm⟩
    · have hnone : ∀ i, ¬IsDrop reader.allOffsets i := by
        intro i hi
        have hle := unchecked_le_of_isDrop h hwaiting hi
        refine hfind (i - reader.unchecked) ?_
        rwa [isDrop_drop, Nat.add_sub_cancel' hle]
      have hchain := isChain_iff.mpr hnone
      refine iff_of_true ⟨hchain, afterLastDrop_self hchain, (if_pos rfl).symm⟩ ?_
      exact ⟨fun _ => hnone, fun i _ hi => absurd hi (hnone i)⟩
  | some changed =>
    refine ⟨_, rfl, ?_⟩
    obtain ⟨hdrop, hfirst⟩ := adjacentFind_eq_some hfind
    rw [isDrop_drop] at hdrop
    have hwaiting : reader.offsetsForDownloader ≠ [] := by
      intro hnil
      have hlt := hdrop.lt_length
      simp [allOffsets, unchecked, hnil] at hlt
      omega
    have hle : ∀ i, IsDrop reader.allOffsets i → reader.unchecked + changed ≤ i := by
      intro i hi
      have hunchecked := unchecked_le_of_isDrop h hwaiting hi
      have hchanged := hfirst (i - reader.unchecked)
        (by rwa [isDrop_drop, Nat.add_sub_cancel' hunchecked])
      omega
    have hne : reader.allOffsets.drop (reader.unchecked + changed + 1) ≠ reader.allOffsets := by
      intro heq
      have hlength := congrArg List.length heq
      have hlt := hdrop.lt_length
      rw [List.length_drop] at hlength
      omega
    constructor
    · intro hstale
      have hlast := (afterLastDrop_drop hdrop).mp hstale.kept
      refine ⟨fun hnil => absurd hnil hwaiting, fun i j hi hj => ?_⟩
      rw [le_antisymm (hlast i hi) (hle i hi), le_antisymm (hlast j hj) (hle j hj)]
    · intro hone
      have hkept := (afterLastDrop_drop hdrop).mpr fun i hi => (hone.2 i _ hi hdrop).le
      exact ⟨hkept.isChain, hkept, (if_neg hne).symm⟩

/-- **In every run** whose batches change the downloader once at most, offsets grow. -/
theorem isChain_of_reached (h : system.Reached Allowed reader) :
    reader.offsetsForDownloader.IsChain (· < ·) := by
  refine @System.Reached.invariant _ _ _ _
    (fun reader : Reader => reader.offsetsForDownloader.IsChain (· < ·)) _ h ?_ ?_
  · rintro reader rfl
    exact List.isChain_nil
  · intro reader action reader' hchain hallowed hstep
    by_cases henqueue : action = .enqueueDownloaderOffsets
    · subst henqueue
      obtain ⟨reader'', hsome, hiff⟩ := staleDropped_iff hchain
      obtain rfl := Option.some_inj.mp (hsome.symm.trans hstep)
      exact (hiff.mpr hallowed).increasing
    · rw [List.isChain_iff_pairwise] at hchain ⊢
      exact hchain.sublist (act_sublist hstep henqueue)

/-- **Stale requests are dropped.**  In a run whose batches change the downloader once at most,
offsets grow, and the next batch drops the stale ones if and only if it is such a batch too. -/
theorem enqueueDownloaderOffsets_iff (h : system.Reached Allowed reader) :
    reader.offsetsForDownloader.IsChain (· < ·) ∧
      ∃ reader', reader.enqueueDownloaderOffsets = some reader' ∧
        (StaleDropped reader reader' ↔ reader.OneChange) :=
  ⟨isChain_of_reached h, staleDropped_iff (isChain_of_reached h)⟩

/-- The second part is requested after the first one, before either is enqueued. -/
theorem reached_two_requests : system.Reached Allowed
    { attachedDownloader := some 1, downloaderOffsetRequests := [0, 131072] } :=
  .step (a := .loadForDownloader 1 131072)
    (.step (a := .loadForDownloader 1 0) (.init rfl) trivial rfl) trivial rfl

theorem enqueueDownloaderOffsets_two_requests :
    ∃ reader', enqueueDownloaderOffsets
        { attachedDownloader := some 1, downloaderOffsetRequests := [0, 131072] } = some reader' ∧
      (StaleDropped { attachedDownloader := some 1, downloaderOffsetRequests := [0, 131072] }
          reader' ↔
        OneChange { attachedDownloader := some 1, downloaderOffsetRequests := [0, 131072] }) :=
  (enqueueDownloaderOffsets_iff reached_two_requests).2

/-- The second part is requested before the first one: both offsets wait, in this order. -/
theorem not_enqueueDownloaderOffsets :
    ¬∀ reader, system.Reachable reader → ∀ reader',
      reader.enqueueDownloaderOffsets = some reader' → StaleDropped reader reader' := by
  intro h
  have hreachable : system.Reachable
      { attachedDownloader := some 1, downloaderOffsetRequests := [131072, 0] } :=
    .step (a := .loadForDownloader 1 0)
      (.step (a := .loadForDownloader 1 131072) (.init rfl) trivial rfl) trivial rfl
  have hstale := h _ hreachable
    { attachedDownloader := some 1, offsetsForDownloader := [131072, 0] } rfl
  have hchain := hstale.increasing
  simp at hchain

end Reader

end Streaming

end MessengerClient
