import MessengerClient.Lib.Tally
import MessengerClient.Uploader.Waiting

/-!
# MessengerClient.Uploader.Accounts

The accounts of the uploader: what is in flight over each session, which requests are on
their way, and how many parts of each entry wait for an answer.

`Accounts` is kept by every call and by every event.  Between two calls it may be off for
one entry, the one that is about to fail; and while an answer is handled its request has
left the containers but is still counted.
-/

namespace MessengerClient

namespace Uploader

open Tally

/-- What a request puts on its session. -/
def Request.weight (r : Request) : Int := r.bytes.size

/-- The requests on their way and those that wait to be sent again. -/
def inFlight (s : Uploader) : List Request :=
  s.requests.map Prod.snd ++ s.pendingFromRemovedDcIndices

/-- A file that has no empty parts. -/
def NonEmptyParts (file : FilePrepareResult) : Prop :=
  ∀ b ∈ file.fileparts ++ file.thumbparts, 0 < b.size

/-- The network carries the requests that the uploader knows of. -/
structure Network (requests : List (RequestId × Request)) (network : List (RequestId × SaveFilePart))
    (nextRequestId : RequestId) : Prop where
  same : network.map Prod.fst = requests.map Prod.fst
  nodup : (requests.map Prod.fst).Nodup
  lt_next : ∀ id ∈ requests.map Prod.fst, id < nextRequestId

/-- The accounts, with the owners of requests that are answered but still counted. -/
structure Accounts (failing : Option FullMsgId) (answered : List (FullMsgId × Bool))
    (s : Uploader) : Prop where
  tallies : Tallies Request.dcIndex Request.weight s.sentPerDcIndex (s.requests.map Prod.snd)
  sessions : s.sentPerDcIndex.length ≤ kMaxSessionsCount
  nonempty : ∀ r ∈ s.inFlight, 0 < r.bytes.size
  network : Network s.requests s.network s.nextRequestId
  waiting : Waiting failing s.queue (answered ++ s.inFlight.map Request.owner)
  known : ∀ e ∈ s.queue, Issued s.localMessageIdCounter e.itemId ∧ e.file.All NonEmptyParts
  videos : ∀ v c, s.videoIdToCoverId.find? v = some c → Issued s.localMessageIdCounter v

/-- What a call that is still to be made counts on. -/
def CallOk (s : Uploader) : Call → Prop
  | .sendTo _ dcIndex => dcIndex < s.sentPerDcIndex.length
  | .failedRest itemId =>
      Issued s.localMessageIdCounter itemId ∧ itemId ∉ s.queue.map Entry.itemId
  | _ => True

/-- What no call takes back: sessions stay, and only new ids join the queue. -/
structure Grows (s s' : Uploader) : Prop where
  sessions : s.sentPerDcIndex.length ≤ s'.sentPerDcIndex.length
  counter : s.localMessageIdCounter ≤ s'.localMessageIdCounter
  queue : ∀ id ∈ s'.queue.map Entry.itemId,
    id ∈ s.queue.map Entry.itemId ∨ ¬ Issued s.localMessageIdCounter id

theorem Grows.refl (s : Uploader) : Grows s s where
  sessions := le_rfl
  counter := le_rfl
  queue _ h := .inl h

theorem CallOk.mono {s s' : Uploader} (hg : Grows s s') {call : Call} (h : CallOk s call) :
    CallOk s' call := by
  cases call with
  | sendTo used dcIndex => exact lt_of_lt_of_le h hg.sessions
  | failedRest itemId =>
      exact ⟨h.1.mono hg.counter, fun hmem => (hg.queue _ hmem).elim h.2 (absurd h.1)⟩
  | _ => trivial

/-- An outcome that keeps the accounts. -/
def Sound : Except Stop (Uploader × List Call) → Prop
  | .ok (s, calls) => Accounts (failingOf calls) [] s ∧ ∀ call ∈ calls, CallOk s call
  | .error e => e ≠ .assertion

/-- The same for a call that is made from `s`. -/
def SoundFrom (s : Uploader) (r : Except Stop (Uploader × List Call)) : Prop :=
  Sound r ∧ ∀ s' calls, r = .ok (s', calls) → Grows s s'

/-! ## The network -/

namespace Network

variable {requests : List (RequestId × Request)} {network : List (RequestId × SaveFilePart)}
  {nextRequestId : RequestId}

theorem push (h : Network requests network nextRequestId) (r : Request) (m : SaveFilePart) :
    Network (requests ++ [(nextRequestId, r)]) (network ++ [(nextRequestId, m)])
      (nextRequestId + 1) where
  same := by simp [h.same]
  nodup := by
    rw [List.map_append]
    exact List.concat_eq_append ▸ h.nodup.concat fun hmem => (h.lt_next _ hmem).false
  lt_next id hid := by
    rw [List.map_append] at hid
    cases List.mem_append.mp hid with
    | inl hid => exact Nat.lt_succ_of_lt (h.lt_next id hid)
    | inr hid =>
        obtain rfl : id = nextRequestId := List.mem_singleton.mp hid
        exact Nat.lt_succ_self id

theorem map_filter (hnodup : (requests.map Prod.fst).Nodup) (p : Request → Bool) :
    (requests.filter fun r => !p r.2).map Prod.fst =
      (requests.map Prod.fst).filter
        (· ∉ (requests.filter fun r => p r.2).map Prod.fst) := by
  rw [List.filter_map]
  congr 1
  refine List.filter_congr fun r hr => ?_
  have hiff : r.1 ∈ (requests.filter fun r => p r.2).map Prod.fst ↔ p r.2 = true := by
    constructor
    · intro hmem
      obtain ⟨r', hr', heq⟩ := List.mem_map.mp hmem
      obtain ⟨hr', hp⟩ := List.mem_filter.mp hr'
      rwa [List.inj_on_of_nodup_map hnodup hr hr' heq.symm]
    · exact fun hp => List.mem_map_of_mem (List.mem_filter.mpr ⟨hr, hp⟩)
  cases hp : p r.2 <;> simp [hiff, hp]

/-- Requests that are cancelled leave both. -/
theorem filter (h : Network requests network nextRequestId) (p : Request → Bool) :
    Network (requests.filter fun r => !p r.2)
      (network.filter fun m => m.1 ∉ (requests.filter fun r => p r.2).map Prod.fst)
      nextRequestId where
  same := by
    rw [map_filter h.nodup, ← h.same, List.filter_map]
    rfl
  nodup := h.nodup.sublist (List.filter_sublist.map _)
  lt_next id hid := h.lt_next id ((List.filter_sublist.map _).subset hid)

/-- A request that is answered leaves both. -/
theorem erase (h : Network requests network nextRequestId) (requestId : RequestId) :
    Network (requests.filter (·.1 ≠ requestId)) (network.filter (·.1 ≠ requestId))
      nextRequestId where
  same := by
    have hmap {α : Type} (l : List (RequestId × α)) :
        (l.filter (·.1 ≠ requestId)).map Prod.fst = (l.map Prod.fst).filter (· ≠ requestId) := by
      rw [List.filter_map]
      rfl
    rw [hmap, hmap, h.same]
  nodup := h.nodup.sublist (List.filter_sublist.map _)
  lt_next id hid := h.lt_next id ((List.filter_sublist.map _).subset hid)

theorem nil (nextRequestId : RequestId) : Network [] [] nextRequestId where
  same := rfl
  nodup := List.nodup_nil
  lt_next _ h := nomatch h

end Network

/-! ## Requests that leave -/

variable {s : Uploader} {failing : Option FullMsgId} {answered : List (FullMsgId × Bool)}

theorem tallies_dropRequests
    (h : Tallies Request.dcIndex Request.weight s.sentPerDcIndex (s.requests.map Prod.snd))
    (p : Request → Bool) :
    Tallies Request.dcIndex Request.weight (s.dropRequests p).sentPerDcIndex
      ((s.dropRequests p).requests.map Prod.snd) := by
  have hperm := (List.filter_append_perm (fun r : RequestId × Request => p r.2) s.requests).map
    Prod.snd
  rw [List.map_append] at hperm
  exact (h.perm hperm.symm).takeOff

@[simp] theorem length_takeSent (requests : List Request) (sent : List Int) :
    (takeSent requests sent).length = sent.length :=
  Tally.length_takeOff requests sent

theorem inFlight_cancelRequests (itemId : FullMsgId) (s : Uploader) :
    (s.cancelRequests itemId).inFlight = s.inFlight.filter (·.itemId ≠ itemId) := by
  rw [inFlight, inFlight, List.filter_append, List.filter_map]
  simp only [cancelRequests, dropRequests, ne_eq, decide_not]
  rfl

theorem owners_filter (requests : List Request) (itemId : FullMsgId) :
    (requests.filter (·.itemId ≠ itemId)).map Request.owner =
      (requests.map Request.owner).filter (·.1 ≠ itemId) := by
  rw [List.filter_map]
  rfl

theorem lookup_of_mem {V : Type} {l : List (RequestId × V)} (h : (l.map Prod.fst).Nodup)
    {id : RequestId} {v : V} (hmem : (id, v) ∈ l) : l.lookup id = some v := by
  obtain ⟨before, after, rfl⟩ := List.append_of_mem hmem
  refine List.lookup_eq_some_iff.mpr ⟨before, after, rfl, fun p hp => bne_iff_ne.mpr fun heq => ?_⟩
  rw [List.map_append] at h
  exact (List.nodup_append.mp h).2.2 p.1 (List.mem_map_of_mem hp) id (.head _) heq.symm

namespace Accounts

theorem weaken (h : Accounts none [] s) (failing : Option FullMsgId) : Accounts failing [] s :=
  { h with waiting := h.waiting.weaken failing }

/-- More calls come after the first ones. -/
theorem append {calls : List Call} (h : Accounts (failingOf calls) [] s) (more : List Call) :
    Accounts (failingOf (calls ++ more)) [] s := by
  cases calls with
  | nil => exact h.weaken _
  | cons call calls => cases call <;> exact h

/-- With no entry, nothing is off. -/
theorem settle {itemId : FullMsgId} (h : Accounts (some itemId) [] s)
    (hid : itemId ∉ s.queue.map Entry.itemId) : Accounts none [] s :=
  { h with
    waiting := { h.waiting with
      counted := fun e he _ => h.waiting.counted e he fun heq =>
        hid (Option.some.inj heq ▸ List.mem_map_of_mem he) } }

/-- The requests of an item leave, with its entry if it has one. -/
theorem cancelRequests (h : Accounts failing [] s) {itemId : FullMsgId}
    (hf : ∀ id ∈ failing, id = itemId) :
    Accounts none []
      ({ s with queue := s.queue.filter (·.itemId ≠ itemId) }.cancelRequests itemId) where
  tallies := tallies_dropRequests h.tallies (·.itemId = itemId)
  sessions := (length_takeSent ..).trans_le h.sessions
  nonempty r hr := by
    rw [inFlight_cancelRequests] at hr
    exact h.nonempty r (List.mem_of_mem_filter hr)
  network := h.network.filter (·.itemId = itemId)
  waiting := by
    rw [inFlight_cancelRequests, owners_filter]
    exact h.waiting.drop hf
  known e he := h.known e (List.mem_of_mem_filter he)
  videos := h.videos

/-- An item without an entry has no requests. -/
theorem cancelRequests_of_notMem (h : Accounts none [] s) {itemId : FullMsgId}
    (hid : itemId ∉ s.queue.map Entry.itemId) : Accounts none [] (s.cancelRequests itemId) := by
  have hqueue : s.queue.filter (·.itemId ≠ itemId) = s.queue :=
    List.filter_eq_self.mpr fun e he => decide_eq_true fun heq =>
      hid (heq ▸ List.mem_map_of_mem he)
  have hcancelled := h.cancelRequests (show ∀ id ∈ none, id = itemId from nofun)
  rwa [hqueue] at hcancelled

/-- An answered request leaves the containers; it is still counted. -/
theorem finishRequest (h : Accounts none [] s) {requestId : RequestId}
    (hid : requestId ∈ s.network.map Prod.fst) :
    ∃ taken s', (s.answered requestId).finishRequest requestId = .ok (taken, s') ∧
      Accounts none [taken.owner] s' ∧ s'.queue = s.queue := by
  rw [h.network.same] at hid
  obtain ⟨⟨id, taken⟩, hmem, hid⟩ := List.mem_map.mp hid
  obtain rfl : id = requestId := hid
  have hperm := (FlatMap.perm_cons_filter h.network.nodup hmem).map Prod.snd
  have hfinish : (s.answered id).finishRequest id = .ok (taken, { s.answered id with
      requests := s.requests.filter (·.1 ≠ id)
      sentPerDcIndex := takeSent [taken] s.sentPerDcIndex }) := by
    rw [Uploader.finishRequest, show (s.answered id).requests = s.requests from rfl,
      lookup_of_mem h.network.nodup hmem]
    rfl
  refine ⟨taken, _, hfinish, ?_, rfl⟩
  exact
    { tallies := Tallies.takeOff (show Tallies _ _ _ ([taken] ++ _) from h.tallies.perm hperm)
      sessions := (length_takeSent ..).trans_le h.sessions
      nonempty := fun r hr => h.nonempty r ((hperm.append_right _).mem_iff.mpr (.tail _ hr))
      network := h.network.erase id
      waiting := h.waiting.perm ((hperm.append_right _).map Request.owner)
      known := h.known
      videos := h.videos }

/-- The requests of the last session wait to be sent again. -/
theorem removeDcIndex (h : Accounts none answered s) (hlen : 1 < s.sentPerDcIndex.length) :
    ∃ s', s.removeDcIndex = .ok s' ∧ Accounts none answered s' ∧ s'.queue = s.queue := by
  obtain ⟨n, hn⟩ : ∃ n, s.sentPerDcIndex.length - 1 = n := ⟨_, rfl⟩
  have htallies := tallies_dropRequests h.tallies (·.dcIndex = n)
  have hlast : ∀ r ∈ (s.dropRequests (·.dcIndex = n)).requests.map Prod.snd, r.dcIndex ≠ n := by
    intro r hr
    obtain ⟨q, hq, rfl⟩ := List.mem_map.mp hr
    simpa using (List.mem_filter.mp hq).2
  have hzero : (s.dropRequests (·.dcIndex = n)).sentIn n = 0 :=
    (htallies.sum_eq n).trans (total_eq_zero hlast)
  have hlen' : (s.dropRequests (·.dcIndex = n)).sentPerDcIndex.length = s.sentPerDcIndex.length :=
    length_takeSent ..
  rw [Uploader.removeDcIndex, if_neg (by omega)]
  dsimp only
  rw [hn, if_neg (by rw [hzero]; simp)]
  refine ⟨_, rfl, ?_, rfl⟩
  have hperm : s.inFlight.Perm ((s.requests.filter fun r => !decide (r.2.dcIndex = n)).map Prod.snd ++
      (s.pendingFromRemovedDcIndices ++
        (s.requests.filter (·.2.dcIndex = n)).map Prod.snd)) := by
    have := (List.filter_append_perm (fun r : RequestId × Request => decide (r.2.dcIndex = n))
      s.requests).symm.map Prod.snd
    rw [List.map_append] at this
    refine (this.append_right _).trans ?_
    rw [List.append_assoc, ← List.append_assoc _ s.pendingFromRemovedDcIndices]
    exact List.perm_append_comm
  exact
    { tallies := htallies.dropLast (by rwa [hlen', hn])
      sessions := by
        rw [List.length_dropLast, hlen']
        exact (Nat.sub_le ..).trans h.sessions
      nonempty := fun r hr => h.nonempty r (hperm.mem_iff.mpr hr)
      network := h.network.filter (·.dcIndex = n)
      waiting := h.waiting.perm ((hperm.map Request.owner).append_left _)
      known := h.known
      videos := h.videos }

theorem noteDuration (h : Accounts none answered s) (now : Time) (request : Request) :
    ∃ s', s.noteDuration now request = .ok s' ∧ Accounts none answered s' ∧ s'.queue = s.queue := by
  rw [Uploader.noteDuration]
  split
  · have h' : Accounts none answered { s with dcIndicesWithFastRequests := [] } := { h with }
    dsimp only
    split
    · next hslow =>
      have hlen : 1 < s.sentPerDcIndex.length := by
        simp only [slow, Bool.and_eq_true, decide_eq_true_eq] at hslow
        exact hslow.2
      obtain ⟨s', hs', hacc, hqueue⟩ := h'.removeDcIndex hlen
      rw [hs']
      exact ⟨_, rfl, { hacc with }, hqueue⟩
    · exact ⟨_, rfl, h', rfl⟩
  · split
    · exact ⟨_, rfl, { h with }, rfl⟩
    · exact ⟨_, rfl, h, rfl⟩

/-! ## Parts that are sent -/

/-- A request is sent; `queue` and `pending` are the containers after it was prepared. -/
theorem send (h : Accounts none [] s) {queue : List Entry} {pending : List Request}
    {r : Request} (now : Time) (m : SaveFilePart) (hdc : r.dcIndex < s.sentPerDcIndex.length)
    (hpos : 0 < r.bytes.size) (hpending : ∀ p ∈ pending, 0 < p.bytes.size)
    (hwaiting : Waiting none queue
      ((s.requests.map Prod.snd ++ pending).map Request.owner ++ [r.owner]))
    (hknown : ∀ e ∈ queue, Issued s.localMessageIdCounter e.itemId ∧ e.file.All NonEmptyParts) :
    Accounts none [] ({ s with
      queue, pendingFromRemovedDcIndices := pending }.sendPreparedRequest now m r) where
  tallies := by
    rw [sendPreparedRequest, List.map_append]
    exact h.tallies.put (a := { r with sent := now, queued := s.sentIn r.dcIndex }) hdc
  sessions := (List.length_modify ..).trans_le h.sessions
  nonempty p hp := by
    simp only [inFlight, sendPreparedRequest, List.map_append, List.append_assoc,
      List.mem_append, List.map_cons, List.map_nil, List.mem_singleton] at hp
    rcases hp with hp | rfl | hp
    · exact h.nonempty p (List.mem_append_left _ hp)
    · exact hpos
    · exact hpending p hp
  network := h.network.push _ _
  waiting := by
    refine hwaiting.perm ?_
    simp only [inFlight, sendPreparedRequest, List.map_append, List.append_assoc, List.nil_append,
      List.map_cons, List.map_nil]
    exact List.Perm.append_left _ List.perm_append_comm
  known := hknown
  videos := h.videos

/-- A part moves from the pending ones to a session. -/
theorem sendPending (h : Accounts none [] s) {request : Request} {rest : List Request}
    (hpending : s.pendingFromRemovedDcIndices = request :: rest) (now : Time) (entry : Entry)
    {dcIndex : Nat} (hdc : dcIndex < s.sentPerDcIndex.length) :
    Accounts none [] (s.sendPendingPart now request rest entry dcIndex) := by
  have hpos : ∀ p ∈ request :: rest, 0 < p.bytes.size := fun p hp =>
    h.nonempty p (List.mem_append_right _ (hpending ▸ hp))
  have hwaiting : Waiting none s.queue ((s.requests.map Prod.snd ++ rest).map Request.owner ++
      [{ request with dcIndex }.owner]) := by
    refine h.waiting.perm ?_
    rw [inFlight, hpending, List.nil_append]
    have : (s.requests.map Prod.snd ++ request :: rest).Perm
        (s.requests.map Prod.snd ++ rest ++ [request]) := by
      rw [List.append_assoc]
      exact (List.perm_append_singleton _ _).symm.append_left _
    have hmap := this.map Request.owner
    exact hmap.trans (.of_eq List.map_append)
  rw [sendPendingPart]
  split <;>
    exact h.send now _ hdc (hpos request (.head _)) (fun p hp => hpos p (.tail _ hp)) hwaiting
      h.known

end Accounts

/-- The ids and files of a queue with one entry replaced. -/
theorem known_replace {counter : MsgId} {queue : List Entry}
    (h : ∀ e ∈ queue, Issued counter e.itemId ∧ e.file.All NonEmptyParts) {e e' : Entry}
    (he : e ∈ queue) (hid : e'.itemId = e.itemId) (hfile : e'.file = e.file) :
    ∀ x ∈ queue.map fun x => if x.itemId = e'.itemId then e' else x,
      Issued counter x.itemId ∧ x.file.All NonEmptyParts := by
  intro x hx
  obtain ⟨y, hy, rfl⟩ := List.mem_map.mp hx
  split
  · rw [hid, hfile]
    exact h e he
  · exact h y hy

theorem pos_of_mem_parts {e : Entry} (h : e.file.All NonEmptyParts) {b : Blob}
    (hb : b ∈ e.parts) : 0 < b.size := by
  obtain ⟨hparts, -⟩ := h
  rw [Entry.parts] at hb
  split at hb
  · exact hparts b (List.mem_append_left _ hb)
  · exact hparts b (List.mem_append_right _ hb)

/-- What sending a part leaves behind. -/
structure Sends (s : Uploader) (entry : Entry) (s' : Uploader) : Prop where
  accounts : Accounts none [] s'
  sessions : s'.sentPerDcIndex.length = s.sentPerDcIndex.length
  counter : s'.localMessageIdCounter = s.localMessageIdCounter
  queue : s'.queue.map Entry.itemId = s.queue.map Entry.itemId

theorem Sends.grows {entry : Entry} {s' : Uploader} (h : Sends s entry s') : Grows s s' where
  sessions := h.sessions.ge
  counter := h.counter.ge
  queue _ hid := .inl (h.queue ▸ hid)

theorem sendSlicedPart_sends (h : Accounts none [] s) {entry : Entry} (he : entry ∈ s.queue)
    (now : Time) {dcIndex : Nat} (hdc : dcIndex < s.sentPerDcIndex.length)
    (hlt : entry.partsSent.toNat < entry.parts.length) :
    ∃ s' result, s.sendSlicedPart now entry dcIndex = .ok (s', result) ∧ Sends s entry s' := by
  have hget := List.getElem?_eq_getElem hlt
  rw [sendSlicedPart, hget]
  dsimp only
  split
  · exact ⟨s, _, rfl, h, rfl, rfl, rfl⟩
  · refine ⟨_, _, rfl, ?_, List.length_modify .., rfl, map_itemId_replace ..⟩
    refine h.send now _ hdc (pos_of_mem_parts (h.known _ he).2 (List.getElem_mem hlt))
      (fun p hp => h.nonempty p (List.mem_append_right _ hp)) ?_
      (known_replace h.known he rfl rfl)
    exact h.waiting.sendSliced he hlt

theorem sendDocPart_sends (h : Accounts none [] s) {entry : Entry} (he : entry ∈ s.queue)
    (now : Time) {dcIndex : Nat} (hdc : dcIndex < s.sentPerDcIndex.length)
    (hlt : entry.docPartsSent < entry.docPartsCount) :
    ∃ s' result, s.sendDocPart now entry dcIndex = .ok (s', result) ∧ Sends s entry s' := by
  obtain ⟨docFile, hread⟩ := readDocPart_fst entry
  rw [sendDocPart]
  split
  · exact ⟨s, _, rfl, h, rfl, rfl, rfl⟩
  · dsimp only
    rw [hread]
    split
    · refine ⟨_, _, rfl, ?_, rfl, rfl, map_itemId_replace ..⟩
      exact { h with
        waiting := h.waiting.read he docFile
        known := known_replace h.known he rfl rfl }
    · next hbytes =>
      refine ⟨_, _, rfl, ?_, List.length_modify .., rfl, map_itemId_replace ..⟩
      refine h.send now _ hdc (Blob.isEmpty_eq_false_iff.mp (Bool.eq_false_of_not_eq_true hbytes))
        (fun p hp => h.nonempty p (List.mem_append_right _ hp)) ?_
        (known_replace h.known he rfl rfl)
      exact h.waiting.sendDoc he hlt docFile

/-- The entry that is chosen is in the queue, and it has a part to send. -/
theorem chooseEntry_spec (h : Accounts none [] s) :
    ∃ chosen, s.chooseEntryForNextRequest = .ok chosen ∧ ∀ entry ∈ chosen, entry ∈ s.queue ∧
      (s.pendingFromRemovedDcIndices = [] → entry.unsent = true) := by
  rw [chooseEntryForNextRequest]
  split
  · next request rest hpending =>
    have howner : request.owner ∈ s.inFlight.map Request.owner :=
      List.mem_map_of_mem (List.mem_append_right _ (hpending ▸ .head _))
    obtain ⟨entry, hentry⟩ := findEntry_of_mem (h.waiting.queued _ howner)
    rw [show s.findEntry request.itemId = some entry from hentry]
    refine ⟨_, rfl, fun e he => ?_⟩
    obtain rfl : entry = e := Option.some.inj he
    exact ⟨(mem_of_findEntry hentry).1, fun hnil => by rw [hpending] at hnil; cases hnil⟩
  · next hpending =>
    exact ⟨_, rfl, fun e he => ⟨List.mem_of_find?_eq_some he, fun _ => List.find?_some he⟩⟩

theorem sendPart_sends (h : Accounts none [] s) {entry : Entry} (he : entry ∈ s.queue)
    (hunsent : s.pendingFromRemovedDcIndices = [] → entry.unsent = true) (now : Time)
    {dcIndex : Nat} (hdc : dcIndex < s.sentPerDcIndex.length) :
    ∃ s' result, s.sendPart now entry dcIndex = .ok (s', result) ∧ Sends s entry s' := by
  rw [sendPart]
  split
  · next request rest hpending =>
    refine ⟨_, _, rfl, h.sendPending hpending now entry hdc, ?_, ?_, ?_⟩ <;>
      rw [sendPendingPart] <;> split <;> first | exact List.length_modify .. | rfl
  · next hpending =>
    split
    · next hlt => exact sendSlicedPart_sends h he now hdc hlt
    · next hlt =>
      have := hunsent hpending
      rw [Entry.unsent, Bool.or_eq_true, decide_eq_true_eq, decide_eq_true_eq] at this
      exact sendDocPart_sends h he now hdc (this.resolve_left hlt)

theorem SoundFrom.ok {s' : Uploader} {calls : List Call} (h : Accounts none [] s')
    (hg : Grows s s') (hcalls : ∀ call ∈ calls, CallOk s' call) :
    SoundFrom s (.ok (s', calls)) := by
  refine ⟨⟨h.weaken _, hcalls⟩, fun s'' calls' heq => ?_⟩
  obtain ⟨rfl, -⟩ := Prod.mk.inj (Except.ok.inj heq)
  exact hg

theorem sendTo_sound (h : Accounts none [] s) (now : Time) (used : List Nat) {dcIndex : Nat}
    (hdc : dcIndex < s.sentPerDcIndex.length) : SoundFrom s (s.sendTo now used dcIndex) := by
  obtain ⟨chosen, hchosen, hspec⟩ := chooseEntry_spec h
  rw [sendTo, hchosen]
  cases chosen with
  | none => exact .ok h (Grows.refl s) nofun
  | some entry =>
      obtain ⟨he, hunsent⟩ := hspec entry rfl
      obtain ⟨s', result, hsend, hsends⟩ := sendPart_sends h he hunsent now hdc
      simp only [bind, Except.bind, hsend]
      cases result with
      | dcIndexFull => exact .ok hsends.accounts hsends.grows nofun
      | success =>
          refine .ok hsends.accounts hsends.grows fun call hcall => ?_
          rw [List.mem_singleton.mp hcall]
          trivial
      | failed =>
          refine .ok hsends.accounts hsends.grows fun call hcall => ?_
          rcases List.mem_cons.mp hcall with rfl | hcall
          · trivial
          · rw [List.mem_singleton.mp hcall]
            exact hdc.trans_eq hsends.sessions.symm

theorem leastSent_lt {used : List Nat} {i : Nat} (h : s.leastSent used = some i) :
    i < s.sentPerDcIndex.length := by
  have hfold (l : List Nat) (result : Option Nat) (hl : ∀ j ∈ l, j < s.sentPerDcIndex.length)
      (hr : ∀ j ∈ result, j < s.sentPerDcIndex.length) :
      ∀ j ∈ l.foldl (fun result i =>
        if i ∉ used ∧ ∀ r ∈ result, s.sentIn i < s.sentIn r then some i else result) result,
        j < s.sentPerDcIndex.length := by
    induction l generalizing result with
    | nil => exact hr
    | cons k l ih =>
        refine ih _ (fun j hj => hl j (.tail _ hj)) fun j hj => ?_
        dsimp only at hj
        split at hj
        · exact Option.some.inj hj ▸ hl k (.head _)
        · exact hr j hj
  exact hfold _ none (fun _ => List.mem_range.mp) nofun i h

/-- The session that is chosen is there, and the accounts stay. -/
theorem sendNext_sound (h : Accounts none [] s) (now : Time) (used : List Nat) :
    SoundFrom s (.ok (s.sendNext now used)) := by
  rw [sendNext, chooseDcIndexForNextRequest]
  split
  · next s' dcIndex heq =>
    split at heq
    · next i hfind =>
      obtain ⟨rfl, hdc⟩ := Prod.mk.inj heq
      obtain rfl := Option.some.inj hdc
      refine .ok h (Grows.refl s) fun call hcall => ?_
      rw [List.mem_singleton.mp hcall]
      exact List.mem_range.mp (List.mem_of_find?_eq_some hfind)
    · split at heq
      · next hadd =>
        obtain ⟨rfl, hdc⟩ := Prod.mk.inj heq
        obtain rfl := Option.some.inj hdc
        rw [canAddDcIndex, Bool.and_eq_true, decide_eq_true_eq] at hadd
        refine .ok { h with tallies := h.tallies.push, sessions := ?_ } ⟨?_, le_rfl, ?_⟩ ?_
        · rw [List.length_append]
          exact hadd.1
        · rw [List.length_append]
          exact Nat.le_add_right ..
        · exact fun _ hid => .inl hid
        · intro call hcall
          rw [List.mem_singleton.mp hcall, CallOk, List.length_append]
          exact Nat.lt_succ_self _
      · obtain ⟨rfl, hdc⟩ := Prod.mk.inj heq
        refine .ok h (Grows.refl s) fun call hcall => ?_
        rw [List.mem_singleton.mp hcall]
        exact leastSent_lt hdc
  · next s' heq =>
    split at heq
    · cases (Prod.mk.inj heq).2
    · split at heq
      · cases (Prod.mk.inj heq).2
      · obtain ⟨rfl, -⟩ := Prod.mk.inj heq
        exact .ok { h with } ⟨le_rfl, le_rfl, fun _ hid => .inl hid⟩ nofun

theorem maybeSend_sound (h : Accounts none [] s) : SoundFrom s (.ok s.maybeSend) := by
  rw [maybeSend]
  split
  · exact .ok { h with } ⟨le_rfl, le_rfl, fun _ hid => .inl hid⟩ nofun
  · split
    · exact .ok h (Grows.refl s) nofun
    · refine .ok { h with } ⟨le_rfl, le_rfl, fun _ hid => .inl hid⟩ fun call hcall => ?_
      rw [List.mem_singleton.mp hcall]
      trivial

/-! ## Entries that fail and finish -/

theorem videos_erase {counter : MsgId} {m : FlatMap FullMsgId FullMsgId}
    (h : ∀ v c, m.find? v = some c → Issued counter v) (id : FullMsgId) :
    ∀ v c, (m.erase id).find? v = some c → Issued counter v := by
  intro v c hv
  rw [FlatMap.find?_erase] at hv
  split at hv
  · cases hv
  · exact h v c hv

theorem failedRest_sound (h : Accounts none [] s) {itemId : FullMsgId}
    (hid : itemId ∉ s.queue.map Entry.itemId) : SoundFrom s (.ok (s.failedRest itemId)) := by
  refine .ok { h.cancelRequests_of_notMem hid with }
    ⟨(length_takeSent ..).ge, le_rfl, fun _ hid => .inl hid⟩ fun call hcall => ?_
  rw [List.mem_singleton.mp hcall]
  trivial

theorem SoundFrom.trans {s' : Uploader} {r : Except Stop (Uploader × List Call)}
    (h : SoundFrom s' r) (hg : Grows s s') : SoundFrom s r :=
  ⟨h.1, fun s'' calls heq =>
    { sessions := hg.sessions.trans (h.2 s'' calls heq).sessions
      counter := hg.counter.trans (h.2 s'' calls heq).counter
      queue := fun id hid => ((h.2 s'' calls heq).queue id hid).elim (hg.queue id)
        fun hnot => .inr fun hissued => hnot (hissued.mono hg.counter) }⟩

theorem failed_sound {itemId : FullMsgId} (h : Accounts (some itemId) [] s) :
    SoundFrom s (.ok (s.failed itemId)) := by
  rw [failed]
  split
  · next entry hentry =>
    obtain ⟨r, -, hr⟩ := notifyFailed_eq entry { s with queue := s.queue.eraseP (·.itemId = itemId) }
    dsimp only
    rw [hr, eraseP_eq_filter h.waiting.nodup]
    refine .ok { h.cancelRequests fun id hid => (Option.some.inj hid).symm with }
      ⟨(length_takeSent ..).ge, le_rfl, fun id hid => .inl ?_⟩ fun call hcall => ?_
    · exact (List.filter_sublist.map _).subset hid
    · rw [List.mem_singleton.mp hcall]
      trivial
  · next hentry =>
    have hid := notMem_of_findEntry hentry
    have h := h.settle hid
    split
    · next coverId hcover =>
      have hvideos := videos_erase h.videos itemId
      have hcalls : ∀ call ∈ [Call.failed coverId, .failedRest itemId],
          call = .failed coverId ∨ call = .failedRest itemId := by simp
      dsimp only
      split
      · refine .ok { h with videos := hvideos } ⟨le_rfl, le_rfl, fun _ hid => .inl hid⟩
          fun call hcall => ?_
        rcases hcalls call hcall with rfl | rfl
        · trivial
        · exact ⟨h.videos _ _ hcover, hid⟩
      · refine .ok { h with videos := hvideos } ⟨le_rfl, le_rfl, fun _ hid => .inl hid⟩
          fun call hcall => ?_
        rcases hcalls call hcall with rfl | rfl
        · trivial
        · exact ⟨h.videos _ _ hcover, hid⟩
    · split
      · next video hvideo =>
        refine SoundFrom.trans (failedRest_sound ?_ ?_) ⟨le_rfl, le_rfl, fun _ hid => .inl hid⟩
        · exact { h with videos := videos_erase h.videos _ }
        · exact hid
      · exact failedRest_sound h hid

theorem Network.next {requests : List (RequestId × Request)}
    {network : List (RequestId × SaveFilePart)} {nextRequestId : RequestId}
    (h : Network requests network nextRequestId) : Network requests network (nextRequestId + 1) :=
  { h with lt_next := fun id hid => Nat.lt_succ_of_lt (h.lt_next id hid) }

/-- A fresh cover joins the queue; its id was not handed out before. -/
theorem uploadVideoCover_sound (h : Accounts none [] s) {video : UploadedMedia}
    (hissued : Issued s.localMessageIdCounter video.fullId) {cover : FilePrepareResult}
    (hcover : cover.All NonEmptyParts) : SoundFrom s (s.uploadVideoCover video cover) := by
  rw [uploadVideoCover, nextLocalMessageId]
  split
  · next hlt =>
    have hfresh : ¬ Issued s.localMessageIdCounter
        { peer := cover.toPeer, msg := s.localMessageIdCounter } := by
      intro hissued
      rcases hissued with hissued | hissued
      · exact (lt_irrefl _ hissued).elim
      · exact (hissued.trans_lt hlt).false.elim
    have hid : ({ peer := cover.toPeer, msg := s.localMessageIdCounter } : FullMsgId) ∉
        s.queue.map Entry.itemId := fun hmem => by
      obtain ⟨e, he, heq⟩ := List.mem_map.mp hmem
      exact hfresh (heq ▸ (h.known e he).1)
    have hle : s.localMessageIdCounter ≤ s.localMessageIdCounter + 1 :=
      Int.le_add_one (le_refl _)
    refine .ok { h with waiting := h.waiting.push hid cover, known := ?_, videos := ?_ }
      ⟨le_rfl, hle, ?_⟩ ?_
    · intro e he
      cases List.mem_append.mp he with
      | inl he => exact ⟨(h.known e he).1.mono hle, (h.known e he).2⟩
      | inr he =>
          rw [List.mem_singleton.mp he]
          exact ⟨.inl (Int.lt_succ _), hcover⟩
    · intro v c hv
      rw [FlatMap.find?_emplace] at hv
      split at hv
      · next heq => exact heq ▸ hissued.mono hle
      · exact (h.videos v c hv).mono hle
    · intro id hmem
      rw [show ∀ e : Entry, (s.queue ++ [e]).map Entry.itemId = s.queue.map Entry.itemId ++ [e.itemId]
        from fun e => List.map_append] at hmem
      cases List.mem_append.mp hmem with
      | inl hmem => exact .inl hmem
      | inr hmem => exact .inr (List.mem_singleton.mp hmem ▸ hfresh)
    · intro call hcall
      obtain rfl : call = .maybeSend := by
        split at hcall
        · cases hcall
        · exact List.mem_singleton.mp hcall
      trivial
  · exact ⟨fun heq => (by cases heq), fun _ _ heq => (by cases heq)⟩

/-- A finished front leaves no request behind. -/
theorem finishFront_sound (h : Accounts none [] s) {entry : Entry} {queue : List Entry}
    (hqueue : s.queue = entry :: queue) (hfin : entry.finished = true) :
    SoundFrom s s.finishFront := by
  have hknown := h.known entry (hqueue ▸ .head _)
  have hrest : Accounts none [] { s with queue } :=
    { h with
      waiting := (hqueue ▸ h.waiting).tail hfin
      known := fun e he => h.known e (hqueue ▸ .tail _ he) }
  have hg : Grows s { s with queue } :=
    ⟨le_rfl, le_rfl, fun id hid => .inl (by rw [hqueue]; exact .tail _ hid)⟩
  rw [finishFront, hqueue]
  dsimp only
  split
  · split
    · exact .ok { hrest with network := hrest.network.next } { hg with } nofun
    · exact .ok { hrest with } { hg with } nofun
  · split
    · split
      · next cover hcover =>
        obtain ⟨-, hcovers⟩ := hknown.2
        refine (uploadVideoCover_sound hrest ?_ (hcovers cover hcover)).trans hg
        rw [Entry.ready]
        split <;> exact hknown.1
      · exact .ok { hrest with } { hg with } nofun
    · exact .ok { hrest with } { hg with } nofun

theorem maybeFinishFront_sound (h : Accounts none [] s) : SoundFrom s s.maybeFinishFront := by
  rw [maybeFinishFront]
  split
  · exact .ok h (Grows.refl s) nofun
  · next entry queue hqueue =>
    split
    · next hfin =>
      have hfinish := finishFront_sound h hqueue hfin
      cases hs : s.finishFront with
      | error e =>
          rw [hs] at hfinish
          exact ⟨hfinish.1, nofun⟩
      | ok r =>
          rw [hs] at hfinish
          have hg := hfinish.2 r.1 r.2 rfl
          refine ⟨⟨?_, fun call hcall => ?_⟩, fun s' calls heq => ?_⟩
          · exact hfinish.1.1.append _
          · cases List.mem_append.mp hcall with
            | inl hcall => exact hfinish.1.2 call hcall
            | inr hcall =>
                rw [List.mem_singleton.mp hcall]
                trivial
          · obtain ⟨rfl, -⟩ := Prod.mk.inj (Except.ok.inj heq)
            exact hg
    · exact .ok h (Grows.refl s) nofun

/-- **Every call keeps the accounts** and fails no assertion. -/
theorem exec_sound {call : Call} {calls : List Call}
    (h : Accounts (failingOf (call :: calls)) [] s) (hok : CallOk s call) (now : Time) :
    SoundFrom s (s.exec now call) := by
  cases call with
  | failed itemId => exact failed_sound h
  | failedRest itemId => exact failedRest_sound h hok.2
  | maybeFinishFront => exact maybeFinishFront_sound h
  | maybeSend => exact maybeSend_sound h
  | sendNext used => exact sendNext_sound h now used
  | sendTo used dcIndex => exact sendTo_sound h now used hok

/-! ## Events -/

theorem Sound.ok {s' : Uploader} {calls : List Call} (h : Accounts none [] s')
    (hcalls : ∀ call ∈ calls, call = .maybeSend ∨ call = .maybeFinishFront ∨
      ∃ itemId, call = .failed itemId) : Sound (.ok (s', calls)) := by
  refine ⟨h.weaken _, fun call hcall => ?_⟩
  rcases hcalls call hcall with rfl | rfl | ⟨itemId, rfl⟩ <;> trivial

/-- Sessions are only stopped when nothing is in flight. -/
theorem stopSessions_accounts (h : Accounts none [] s) : Accounts none [] s.stopSessions := by
  rw [stopSessions]
  split
  · exact { h with }
  · next hany =>
    have hzero : ∀ x ∈ s.sentPerDcIndex, x = 0 := fun x hx => by
      by_contra hne
      exact hany (List.any_eq_true.mpr ⟨x, hx, decide_eq_true hne⟩)
    have hnil : s.requests.map Prod.snd = [] :=
      h.tallies.eq_nil (fun r hr => Int.natCast_pos.mpr
        (h.nonempty r (List.mem_append_left _ hr))) hzero
    exact { h with tallies := hnil ▸ .nil, sessions := Nat.zero_le _ }

/-- With an empty queue nothing is in flight, and everything is cleared. -/
theorem clear_accounts (h : Accounts none [] s) (hqueue : s.queue = []) :
    Accounts none [] s.clear := by
  have hflight : s.inFlight = [] := List.eq_nil_iff_forall_not_mem.mpr fun r hr => by
    have := h.waiting.queued r.owner (List.mem_map_of_mem hr)
    rw [hqueue] at this
    cases this
  obtain ⟨hrequests, hpending⟩ := List.append_eq_nil_iff.mp hflight
  have hrequests := List.map_eq_nil_iff.mp hrequests
  have hnetwork : s.network = [] := by
    have := h.network.same
    rwa [hrequests, List.map_nil, List.map_eq_nil_iff] at this
  have hcancelled : Accounts none [] { s with queue := [] }.cancelAllRequests :=
    { h with
      tallies := .zeros fun x hx => by
        obtain ⟨_, -, rfl⟩ := List.mem_map.mp hx
        rfl
      sessions := (List.length_map _).trans_le h.sessions
      nonempty := fun r hr => by
        rw [inFlight, cancelAllRequests, List.map_nil, List.nil_append, hpending] at hr
        cases hr
      network := by
        rw [cancelAllRequests, hnetwork]
        exact .nil _
      waiting := by
        rw [inFlight, cancelAllRequests, List.map_nil, List.nil_append, hpending]
        exact .nil
      known := nofun }
  exact { stopSessions_accounts hcancelled with }

theorem acknowledge_accounts (h : Accounts none [] s) (requestId : RequestId) :
    Accounts none [] (s.acknowledge requestId) := by
  rw [acknowledge]
  split
  · exact h
  · exact { h with }

theorem partFailed_sound (h : Accounts none [] s) {requestId : RequestId}
    (hid : requestId ∈ s.network.map Prod.fst) :
    Sound ((s.answered requestId).partFailed requestId) := by
  obtain ⟨taken, s', hs', hacc, -⟩ := h.finishRequest hid
  simp only [Uploader.partFailed, hs', bind, Except.bind]
  refine ⟨{ hacc with waiting := hacc.waiting.fail }, fun call hcall => ?_⟩
  rw [List.mem_singleton.mp hcall]
  trivial

theorem partLoaded_sound (h : Accounts none [] s) {requestId : RequestId}
    (hid : requestId ∈ s.network.map Prod.fst) (now : Time) (result : Bool) :
    Sound ((s.answered requestId).partLoaded now result requestId) := by
  obtain ⟨taken, s', hs', hacc, -⟩ := h.finishRequest hid
  simp only [Uploader.partLoaded, hs', bind, Except.bind]
  cases result with
  | false =>
      refine ⟨{ hacc with waiting := hacc.waiting.fail }, fun call hcall => ?_⟩
      rw [List.mem_singleton.mp hcall]
      trivial
  | true =>
      obtain ⟨entry, hentry⟩ := findEntry_of_mem (hacc.waiting.queued taken.owner (.head _))
      obtain ⟨he, hitem⟩ := mem_of_findEntry hentry
      obtain ⟨s'', hs'', hacc, hqueue⟩ := hacc.noteDuration now taken
      rw [← hqueue] at he
      have hdone := hacc.waiting
      rw [show taken.owner = (entry.itemId, taken.docPart) by rw [hitem]; rfl] at hdone
      have hid' : (entry.partDone taken.docPart).itemId = entry.itemId := by
        cases taken.docPart <;> rfl
      have hfile : (entry.partDone taken.docPart).file = entry.file := by
        cases taken.docPart <;> rfl
      have hset : Accounts none [] (s''.setEntry (entry.partDone taken.docPart)) :=
        { hacc with
          waiting := hdone.partDone he
          known := known_replace hacc.known he hid' hfile }
      have hentry' : s'.findEntry taken.itemId = some entry := hentry
      simp only [Bool.not_true, Bool.false_eq_true, if_false, hentry', hs'']
      refine .ok hset fun call hcall => ?_
      split at hcall
      · rcases List.mem_cons.mp hcall with rfl | hcall
        · exact .inr (.inl rfl)
        · exact .inl (List.mem_singleton.mp hcall)
      · exact .inl (List.mem_singleton.mp hcall)

/-- What an upload that is allowed gives: a file with no empty parts. -/
def Event.NonEmpty : Event → Prop
  | .upload _ file => file.All NonEmptyParts
  | _ => True

theorem handle_sound (h : Accounts none [] s) {e : Event} (hp : e.Possible s) (hne : e.NonEmpty)
    (now : Time) : Sound (s.handle now e) := by
  cases e with
  | upload itemId file =>
      obtain ⟨hissued, -, hqueue, -⟩ := hp
      refine .ok { h with waiting := h.waiting.push hqueue file, known := ?_ } ?_
      · intro e he
        cases List.mem_append.mp he with
        | inl he => exact h.known e he
        | inr he =>
            rw [List.mem_singleton.mp he]
            exact ⟨hissued, hne⟩
      · intro call hcall
        split at hcall <;> simp_all
  | cancel itemId => exact .ok h (by simp)
  | cancelAll => exact .ok h nofun
  | pause itemId => exact .ok { h with } nofun
  | unpause => exact .ok { h with } (by simp)
  | stopSessions => exact .ok (stopSessions_accounts h) nofun
  | partLoaded result requestId =>
      have hnetwork : requestId ∈ (s.acknowledge requestId).network.map Prod.fst := by
        rw [acknowledge]
        split <;> exact hp
      cases result with
      | false => exact partLoaded_sound h hp now false
      | true => exact partLoaded_sound (acknowledge_accounts h requestId) hnetwork now true
  | partFailed requestId => exact partFailed_sound h hp
  | coverLoaded requestId photo =>
      simp only [handle]
      cases s.covering.lookup requestId with
      | none => exact .ok h nofun
      | some r =>
          cases photo with
          | none => exact .ok { h with } (by simp)
          | some photo =>
              refine .ok ?_ nofun
              rw [Uploader.coverLoaded]
              split
              · exact { h with }
              · dsimp only
                split <;> exact { h with videos := videos_erase h.videos _ }
  | coverFailed requestId =>
      simp only [handle]
      cases s.covering.lookup requestId with
      | none => exact .ok h nofun
      | some r => exact .ok { h with } (by simp)
  | nextTimer => exact .ok { h with } (by simp)
  | stopSessionsTimer => exact .ok (stopSessions_accounts { h with }) nofun
  | onMain => exact .ok { h with } (by simp)
  | localMessageId =>
      rw [handle, nextLocalMessageId]
      split
      · have hle : s.localMessageIdCounter ≤ s.localMessageIdCounter + 1 :=
          Int.le_add_one (le_refl _)
        exact .ok { h with
          known := fun e he => ⟨(h.known e he).1.mono hle, (h.known e he).2⟩
          videos := fun v c hv => (h.videos v c hv).mono hle } nofun
      · exact fun heq => by cases heq

/-! ## Runs -/

/-- Every upload brings files without empty parts. -/
def NonEmptyUploads (_ : Config) : Action → Prop
  | .run _ => True
  | .event _ e => e.NonEmpty

/-- The accounts of a configuration, and what the calls that are still to be made count on. -/
structure Steady (c : Config) : Prop where
  accounts : Accounts (failingOf c.calls) [] c.uploader
  calls : ∀ call ∈ c.calls, CallOk c.uploader call

theorem cancelAllNext_sound (h : Accounts none [] s) :
    Sound (.ok (s.cancelAllNext.1, s.cancelAllNext.2.1)) := by
  rw [cancelAllNext]
  split
  · exact .ok h (by simp)
  · next hqueue => exact .ok { clear_accounts h hqueue with } (by simp)

/-- **One action**: the accounts stay, and no assertion fails. -/
theorem steady_next {c : Config} {a : Action} (h : Steady c) (hp : a.Possible c)
    (hne : NonEmptyUploads c a) :
    next c a ≠ .error .assertion ∧ ∀ c', next c a = .ok c' → Steady c' := by
  obtain ⟨s, calls, cancelling⟩ := c
  cases a with
  | run now =>
      cases calls with
      | nil =>
          cases cancelling with
          | true =>
              have hs := cancelAllNext_sound h.accounts
              refine ⟨fun heq => (by cases heq), fun c' hc' => ?_⟩
              obtain rfl := Except.ok.inj hc'
              exact ⟨hs.1, hs.2⟩
          | false =>
              refine ⟨fun heq => (by cases heq), fun c' hc' => ?_⟩
              obtain rfl := Except.ok.inj hc'
              exact h
      | cons call calls =>
          have hs := exec_sound h.accounts (h.calls call (.head _)) now
          simp only [next, bind, Except.bind]
          cases hexec : s.exec now call with
          | error e =>
              rw [hexec] at hs
              exact ⟨fun heq => hs.1 (Except.error.inj heq), nofun⟩
          | ok r =>
              rw [hexec] at hs
              have hg := hs.2 r.1 r.2 rfl
              refine ⟨nofun, fun c' hc' => ?_⟩
              obtain rfl := Except.ok.inj hc'
              refine ⟨hs.1.1.append _, fun call' hcall => ?_⟩
              cases List.mem_append.mp hcall with
              | inl hcall => exact hs.1.2 call' hcall
              | inr hcall => exact (h.calls call' (.tail _ hcall)).mono hg
  | event now e =>
      obtain ⟨⟨rfl, rfl⟩, hp⟩ := hp
      have hs := handle_sound h.accounts hp hne now
      simp only [next, bind, Except.bind]
      cases hhandle : s.handle now e with
      | error e =>
          rw [hhandle] at hs
          exact ⟨fun heq => hs (Except.error.inj heq), nofun⟩
      | ok r =>
          rw [hhandle] at hs
          refine ⟨nofun, fun c' hc' => ?_⟩
          obtain rfl := Except.ok.inj hc'
          exact ⟨hs.1, hs.2⟩

theorem steady_init : Steady {} where
  accounts :=
    { tallies := .nil
      sessions := Nat.zero_le _
      nonempty := nofun
      network := .nil _
      waiting := .nil
      known := nofun
      videos := nofun }
  calls := nofun

theorem steady_of_reached {c : Config} (h : system.Reached NonEmptyUploads c) : Steady c :=
  h.invariant (fun _ hc => hc ▸ steady_init)
    fun _ _ c' hc hok hstep => (steady_next hc hstep.1 hok).2 c' hstep.2

/-- The bytes in flight over a session. -/
def bytesOver (s : Uploader) (dcIndex : Nat) : Int :=
  ((s.requests.filter (·.2.dcIndex = dcIndex)).map fun r => (r.2.bytes.size : Int)).sum

/-- The parts of an item that wait for an answer, of the document or of the sliced file. -/
def partsInFlight (s : Uploader) (itemId : FullMsgId) (docPart : Bool) : Nat :=
  s.inFlight.countP fun r => r.itemId = itemId ∧ r.docPart = docPart

/-- The accounts as they stand between two events.  Sliced parts are counted in sixteen
bits; no file that is prepared has more of them. -/
structure Exact (s : Uploader) : Prop where
  sent : ∀ i, (hi : i < s.sentPerDcIndex.length) → s.sentPerDcIndex[i] = s.bytesOver i
  dcIndex_lt : ∀ r ∈ s.requests, r.2.dcIndex < s.sentPerDcIndex.length
  sliced : ∀ e ∈ s.queue, e.parts.length < 2 ^ 16 →
    e.partsWaiting.toNat = s.partsInFlight e.itemId false
  sliced_mod : ∀ e ∈ s.queue,
    e.partsWaiting.toNat = s.partsInFlight e.itemId false % 2 ^ 16
  doc : ∀ e ∈ s.queue, e.docPartsWaiting.toNat = s.partsInFlight e.itemId true
  queued : ∀ r ∈ s.inFlight, ∃ e ∈ s.queue, e.itemId = r.itemId

theorem count_owner (s : Uploader) (itemId : FullMsgId) (docPart : Bool) :
    (s.inFlight.map Request.owner).count (itemId, docPart) = s.partsInFlight itemId docPart := by
  rw [List.count, List.countP_map, partsInFlight]
  refine List.countP_congr fun r _ => ?_
  simp [Request.owner]

theorem Accounts.exact (h : Accounts none [] s) : Exact s where
  sent i hi := by
    have := h.tallies.sum_eq i
    rw [List.getD_eq_getElem?_getD, List.getElem?_eq_getElem hi, Option.getD_some] at this
    rw [this, Tally.total, List.filter_map, List.map_map]
    rfl
  dcIndex_lt r hr := h.tallies.slot_lt r.2 (List.mem_map_of_mem hr)
  sliced e he hlen := by
    have hb := (h.waiting.bounded e he).parts hlen
    rw [List.nil_append, count_owner] at hb
    rw [(h.waiting.counted e he (Option.some_ne_none _).symm).parts, List.nil_append, count_owner]
    exact UInt16.toNat_ofNat_of_lt' (hb.1.trans_lt e.partsSent.toNat_lt)
  sliced_mod e he := by
    rw [(h.waiting.counted e he (Option.some_ne_none _).symm).parts, List.nil_append, count_owner]
    exact UInt16.toNat_ofNat'
  doc e he := by
    have hb := (h.waiting.bounded e he).doc
    rw [List.nil_append, count_owner] at hb
    rw [(h.waiting.counted e he (Option.some_ne_none _).symm).doc, List.nil_append, count_owner]
    exact UInt16.toNat_ofNat_of_lt' (hb.1.trans_lt e.docPartsSent.toNat_lt)
  queued r hr := by
    obtain ⟨e, he, heq⟩ := List.mem_map.mp (h.waiting.queued _ (List.mem_map_of_mem hr))
    exact ⟨e, he, heq⟩

/-! ## The limit of a session -/

theorem sentIn_sendPreparedRequest_le (s : Uploader) (now : Time) (m : SaveFilePart) (r : Request)
    {n : Int} (hn : 0 ≤ n) (h : s.sentIn r.dcIndex + r.bytes.size ≤ n) :
    (s.sendPreparedRequest now m r).sentIn r.dcIndex ≤ n := by
  rw [sentIn, sendPreparedRequest]
  by_cases hdc : r.dcIndex < s.sentPerDcIndex.length
  · rw [getD_modify _ _ _ _ hdc, if_pos rfl]
    exact h
  · rw [List.getD_eq_getElem?_getD, List.getElem?_eq_none (by
      rw [List.length_modify]
      omega)]
    exact hn

theorem size_readDocPart_le (e : Entry) : e.readDocPart.2.size ≤ e.docPartSize := by
  have hchecked (b : Blob) : (e.checked b).size ≤ e.docPartSize := by
    rw [Entry.checked]
    split
    · exact Nat.zero_le _
    · next h =>
      simp only [Bool.or_eq_true, decide_eq_true_eq, not_or] at h
      exact Nat.le_of_not_lt h.1.2
  rw [Entry.readDocPart]
  split
  · dsimp only
    exact hchecked _
  · split <;> exact hchecked _

/-- **A part that is sent keeps its session within the limit.** -/
theorem sentIn_le_of_sent {now : Time} {entry : Entry} {dcIndex : Nat} {s' : Uploader}
    (h : s.sendSlicedPart now entry dcIndex = .ok (s', .success) ∨
      s.sendDocPart now entry dcIndex = .ok (s', .success)) :
    s'.sentIn dcIndex ≤ kMaxUploadPerSession := by
  have hpos : (0 : Int) ≤ kMaxUploadPerSession := by decide
  rcases h with h | h
  · rw [sendSlicedPart] at h
    split at h
    · cases h
    · next partBytes hget =>
      split at h
      · cases h
      · next hfull =>
        obtain ⟨rfl, -⟩ := Prod.mk.inj (Except.ok.inj h)
        exact sentIn_sendPreparedRequest_le _ _ _ _ hpos (Int.le_of_lt (Int.not_le.mp hfull))
  · rw [sendDocPart] at h
    split at h
    · cases h
    · next hfull =>
      split at h
      · dsimp only at h
        split at h
        · cases h
        · obtain ⟨rfl, -⟩ := Prod.mk.inj (Except.ok.inj h)
          refine sentIn_sendPreparedRequest_le _ _ _ _ hpos ?_
          have hsize : (entry.readDocPart.2.size : Int) ≤ entry.docPartSize :=
            Int.ofNat_le.mpr (size_readDocPart_le entry)
          exact (Int.add_le_add_left hsize _).trans (Int.not_lt.mp hfull)
      · cases h

/-- **The accounts of the sessions are exact** in every state between events, no assertion
fails, and no session is filled over its limit. -/
theorem accounts_exact {c : Config} (h : system.Reached NonEmptyUploads c) :
    (c.Idle → c.uploader.Exact) ∧
    (∀ a : Action, a.Possible c → NonEmptyUploads c a → next c a ≠ .error .assertion) ∧
    ∀ (now : Time) (entry : Entry) (dcIndex : Nat) (s' : Uploader),
      c.uploader.sendSlicedPart now entry dcIndex = .ok (s', .success) ∨
        c.uploader.sendDocPart now entry dcIndex = .ok (s', .success) →
      s'.sentIn dcIndex ≤ kMaxUploadPerSession := by
  have hs := steady_of_reached h
  refine ⟨fun hidle => ?_, fun a hp hne => (steady_next hs hp hne).1,
    fun now entry dcIndex s' => sentIn_le_of_sent⟩
  have := hs.accounts
  rw [hidle.1] at this
  exact this.exact

/-- A photo in two parts is uploaded. -/
def uploadPhoto : List Action :=
  .event 0 (.upload { msg := 5 }
      { id := 7, type := .photo, fileparts := [.replicate 32768 1, .replicate 1000 2] }) ::
    List.replicate 9 (.run 1)

theorem nonEmptyUploads_uploadPhoto : ∀ a ∈ uploadPhoto, ∀ c, NonEmptyUploads c a := by
  intro a ha c
  rcases List.mem_cons.mp ha with rfl | ha
  · refine .intro (fun b hb => ?_) nofun
    simp only [List.append_nil, List.mem_cons, List.not_mem_nil, or_false] at hb
    rcases hb with rfl | rfl <;> decide
  · rw [List.eq_of_mem_replicate ha]
    trivial

theorem accounts_exact_uploadPhoto :
    ∃ c, Config.after allowAll {} uploadPhoto = some c ∧ c.uploader.requests.length = 2 ∧
      c.uploader.Exact := by
  have hafter : ((Config.after allowAll {} uploadPhoto).map fun c =>
      (decide c.Idle, c.uploader.requests.length)) = some (true, 2) := by
    decide +kernel
  obtain ⟨c, hc, hobs⟩ := Option.map_eq_some_iff.mp hafter
  obtain ⟨hidle, hlen⟩ := Prod.mk.inj hobs
  have hreached := reached_after (.init rfl)
    (fun a ha c _ => nonEmptyUploads_uploadPhoto a ha c) hc
  exact ⟨c, hc, hlen, (accounts_exact hreached).1 (of_decide_eq_true hidle)⟩

end Uploader

end MessengerClient
