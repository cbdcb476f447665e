import MessengerClient.Lib.FlatMap

/-!
# MessengerClient.ReceivedIdsManager

The message ids a session has received, as `mtproto_received_ids_manager.cpp` keeps them
to tell a repeated message from a new one.  Only the newest ids are kept, so a repetition
of an id that is forgotten has to be refused for its age.
-/

namespace MessengerClient

/-- A `uint64` that is only compared. -/
abbrev MtpMsgId : Type := Nat

/-- Received msgIds and wereAcked msgIds count stored. -/
def kIdsBufferSize : Nat := 400

structure ReceivedIdsManager where
  idsNeedAck : FlatMap MtpMsgId Bool := ∅

namespace ReceivedIdsManager

inductive State where
  | notFound
  | needsAck
  | noAckNeeded
deriving DecidableEq, Repr

inductive Result where
  | success
  | duplicate
  | tooOld
deriving DecidableEq, Repr

def min (m : ReceivedIdsManager) : MtpMsgId := m.idsNeedAck.front?.elim 0 Prod.fst

def registerMsgId (m : ReceivedIdsManager) (msgId : MtpMsgId) (needAck : Bool) :
    ReceivedIdsManager × Result :=
  if m.idsNeedAck.contains msgId then
    (m, .duplicate)
  else if m.idsNeedAck.size < kIdsBufferSize ∨ msgId > m.min then
    ({ idsNeedAck := m.idsNeedAck.emplace msgId needAck }, .success)
  else
    (m, .tooOld)

def lookup (m : ReceivedIdsManager) (msgId : MtpMsgId) : State :=
  match m.idsNeedAck.find? msgId with
  | none => .notFound
  | some needAck => if needAck then .needsAck else .noAckNeeded

/-- The loop of `shrink`, which counts down from the size. -/
def eraseFront : Nat → FlatMap MtpMsgId Bool → FlatMap MtpMsgId Bool
  | 0, ids => ids
  | size + 1, ids => if size + 1 > kIdsBufferSize then eraseFront size (ids.dropFront 1) else ids

def shrink (m : ReceivedIdsManager) : ReceivedIdsManager where
  idsNeedAck := eraseFront m.idsNeedAck.size m.idsNeedAck

/-! ## Runs -/

inductive Call where
  | registerMsgId (msgId : MtpMsgId) (needAck : Bool)
  | lookup (msgId : MtpMsgId)
  | shrink
deriving DecidableEq, Repr

def call (m : ReceivedIdsManager) : Call → ReceivedIdsManager
  | .registerMsgId msgId needAck => (m.registerMsgId msgId needAck).1
  | .lookup _ => m
  | .shrink => m.shrink

/-- The ids that a call registers with success. -/
def accepts (m : ReceivedIdsManager) : Call → List MtpMsgId
  | .registerMsgId msgId needAck =>
      if (m.registerMsgId msgId needAck).2 = .success then [msgId] else []
  | .lookup _ | .shrink => []

def run (m : ReceivedIdsManager) (calls : List Call) : ReceivedIdsManager := calls.foldl call m

/-- The ids that were registered with success, in order. -/
def accepted (m : ReceivedIdsManager) : List Call → List MtpMsgId
  | [] => []
  | c :: calls => m.accepts c ++ (m.call c).accepted calls

/-! ## The smallest ids are erased -/

theorem eraseFront_eq (size : Nat) (ids : FlatMap MtpMsgId Bool) :
    eraseFront size ids = ids.dropFront (size - kIdsBufferSize) := by
  induction size generalizing ids with
  | zero => rw [eraseFront, Nat.zero_sub]; rfl
  | succ size ih =>
      rw [eraseFront]
      split
      · next h =>
          have hcount : size + 1 - kIdsBufferSize = 1 + (size - kIdsBufferSize) := by omega
          rw [ih, hcount, FlatMap.dropFront_dropFront]
      · next h =>
          have hcount : size + 1 - kIdsBufferSize = 0 := by omega
          rw [hcount]
          rfl

theorem shrink_eq (m : ReceivedIdsManager) :
    m.shrink.idsNeedAck = m.idsNeedAck.dropFront (m.idsNeedAck.size - kIdsBufferSize) :=
  eraseFront_eq _ _

/-! ## What is known of the ids that were accepted -/

/-- **The invariant.**  Ids that are forgotten leave a full buffer of larger ones behind. -/
structure Remembers (m : ReceivedIdsManager) (ids : List MtpMsgId) : Prop where
  nodup : ids.Nodup
  kept : ∀ id, m.idsNeedAck.contains id → id ∈ ids
  full : ∀ id ∈ ids, m.idsNeedAck.find? id = none → kIdsBufferSize ≤ m.idsNeedAck.size
  smaller : ∀ id ∈ ids, m.idsNeedAck.find? id = none →
    ∀ k, m.idsNeedAck.contains k → id < k

namespace Remembers

variable {m : ReceivedIdsManager} {ids : List MtpMsgId}

theorem nil : Remembers {} [] where
  nodup := List.nodup_nil
  kept := by simp
  full := by simp
  smaller := by simp

/-- A full buffer has a smallest id, and that is `min`. -/
theorem lt_min (h : Remembers m ids) {id : MtpMsgId} (hid : id ∈ ids)
    (hnone : m.idsNeedAck.find? id = none) : id < m.min := by
  cases hfront : m.idsNeedAck.front? with
  | none =>
      have hsize := h.full id hid hnone
      rw [FlatMap.front?_eq_none_iff.mp hfront] at hsize
      exact absurd hsize (by decide)
  | some e =>
      have hmin : m.min = e.1 := by rw [min, hfront]; rfl
      rw [hmin]
      exact h.smaller id hid hnone e.1
        (FlatMap.contains_iff.mpr ⟨e.2, (FlatMap.front?_spec hfront).1⟩)

/-- **An id is accepted once.**  It is found, or it is below the minimum of a full
buffer. -/
theorem not_mem_of_success (h : Remembers m ids) {id : MtpMsgId}
    (hnone : m.idsNeedAck.find? id = none)
    (haccept : m.idsNeedAck.size < kIdsBufferSize ∨ id > m.min) : id ∉ ids := by
  intro hid
  cases haccept with
  | inl hfree => exact absurd (h.full id hid hnone) (Nat.not_le.mpr hfree)
  | inr hnew => exact lt_asymm (h.lt_min hid hnone) hnew

theorem emplace (h : Remembers m ids) {id : MtpMsgId} (needAck : Bool)
    (hnone : m.idsNeedAck.find? id = none)
    (haccept : m.idsNeedAck.size < kIdsBufferSize ∨ id > m.min) :
    Remembers { idsNeedAck := m.idsNeedAck.emplace id needAck } (ids ++ [id]) := by
  have hfresh := h.not_mem_of_success hnone haccept
  have hsize : (m.idsNeedAck.emplace id needAck).size = m.idsNeedAck.size + 1 :=
    (FlatMap.emplace_entries_perm needAck hnone).length_eq
  have hforgotten : ∀ k ∈ ids ++ [id], (m.idsNeedAck.emplace id needAck).find? k = none →
      k ∈ ids ∧ m.idsNeedAck.find? k = none := by
    intro k hk hk'
    rw [FlatMap.find?_emplace] at hk'
    split at hk'
    · cases hk'
    · next hne =>
        rw [List.mem_append, List.mem_singleton] at hk
        exact ⟨hk.resolve_right hne, hk'⟩
  refine ⟨?_, ?_, ?_, ?_⟩
  · exact List.nodup_append.mpr ⟨h.nodup, List.nodup_singleton id, by
      intro a ha b hb
      rw [List.mem_singleton.mp hb]
      exact fun heq => hfresh (heq ▸ ha)⟩
  · intro k hk
    rw [FlatMap.contains_iff] at hk
    obtain ⟨v, hv⟩ := hk
    rw [FlatMap.find?_emplace] at hv
    split at hv
    · next heq => simp [heq]
    · exact List.mem_append_left _ (h.kept k (FlatMap.contains_iff.mpr ⟨v, hv⟩))
  · intro k hk hk'
    obtain ⟨hmem, hnone'⟩ := hforgotten k hk hk'
    have := h.full k hmem hnone'
    show kIdsBufferSize ≤ (m.idsNeedAck.emplace id needAck).size
    omega
  · intro k hk hk' k' hk''
    obtain ⟨hmem, hnone'⟩ := hforgotten k hk hk'
    rw [FlatMap.contains_iff] at hk''
    obtain ⟨v, hv⟩ := hk''
    rw [FlatMap.find?_emplace] at hv
    split at hv
    · next heq =>
        rw [heq]
        cases haccept with
        | inl hfree => exact absurd (h.full k hmem hnone') (Nat.not_le.mpr hfree)
        | inr hnew => exact lt_trans (h.lt_min hmem hnone') hnew
    · exact h.smaller k hmem hnone' k' (FlatMap.contains_iff.mpr ⟨v, hv⟩)

theorem shrink (h : Remembers m ids) : Remembers m.shrink ids := by
  have hold : ∀ {k v}, m.shrink.idsNeedAck.find? k = some v → m.idsNeedAck.find? k = some v := by
    intro k v hk
    rw [shrink_eq] at hk
    exact FlatMap.find?_of_dropFront hk
  have hsize : m.shrink.idsNeedAck.size
      = m.idsNeedAck.size - (m.idsNeedAck.size - kIdsBufferSize) := by
    rw [shrink_eq, FlatMap.size_dropFront]
  refine ⟨h.nodup, ?_, ?_, ?_⟩
  · intro k hk
    obtain ⟨v, hv⟩ := FlatMap.contains_iff.mp hk
    exact h.kept k (FlatMap.contains_iff.mpr ⟨v, hold hv⟩)
  · intro k hk hnone
    rw [hsize]
    cases hfind : m.idsNeedAck.find? k with
    | none =>
        have := h.full k hk hfind
        omega
    | some v =>
        by_contra hsmall
        have hcount : m.idsNeedAck.size - kIdsBufferSize = 0 := by omega
        rw [shrink_eq, hcount] at hnone
        exact Option.some_ne_none v (hfind.symm.trans hnone)
  · intro k hk hnone k' hk'
    obtain ⟨v', hv'⟩ := FlatMap.contains_iff.mp hk'
    cases hfind : m.idsNeedAck.find? k with
    | none => exact h.smaller k hk hfind k' (FlatMap.contains_iff.mpr ⟨v', hold hv'⟩)
    | some v =>
        rw [shrink_eq] at hnone hv'
        exact FlatMap.lt_of_dropFront hfind hnone hv'

/-- What one call keeps. -/
theorem call (h : Remembers m ids) (c : Call) : Remembers (m.call c) (ids ++ m.accepts c) := by
  cases c with
  | lookup msgId => simpa [ReceivedIdsManager.call, accepts] using h
  | shrink => simpa [ReceivedIdsManager.call, accepts] using h.shrink
  | registerMsgId msgId needAck =>
      rw [ReceivedIdsManager.call, accepts, registerMsgId]
      split
      · simpa using h
      · next hnot =>
          split
          · next haccept =>
              rw [Bool.not_eq_true, FlatMap.contains_eq_false_iff] at hnot
              simpa using h.emplace needAck hnot haccept
          · simpa using h

/-- What a run keeps. -/
theorem run (h : Remembers m ids) (calls : List Call) :
    Remembers (m.run calls) (ids ++ m.accepted calls) := by
  induction calls generalizing m ids with
  | nil => simpa [ReceivedIdsManager.run, accepted] using h
  | cons c calls ih =>
      rw [accepted, ← List.append_assoc]
      exact ih (h.call c)

/-- **The ids that are kept are the largest.** -/
theorem kept_iff (h : Remembers m ids) (hsize : m.idsNeedAck.size ≤ kIdsBufferSize)
    (id : MtpMsgId) :
    m.idsNeedAck.contains id ↔ id ∈ ids ∧ (ids.filter (id < ·)).length < kIdsBufferSize := by
  constructor
  · intro hid
    refine ⟨h.kept id hid, ?_⟩
    have hsub : id :: ids.filter (id < ·) ⊆ m.idsNeedAck.keys := by
      intro k hk
      rw [FlatMap.mem_keys_iff, ← FlatMap.contains_iff]
      cases List.mem_cons.mp hk with
      | inl heq => exact heq ▸ hid
      | inr hgreater =>
          rw [List.mem_filter, decide_eq_true_eq] at hgreater
          by_contra hnot
          rw [Bool.not_eq_true, FlatMap.contains_eq_false_iff] at hnot
          exact lt_asymm hgreater.2 (h.smaller k hgreater.1 hnot id hid)
    have hnodup : (id :: ids.filter (id < ·)).Nodup :=
      List.nodup_cons.mpr ⟨by simp, h.nodup.filter _⟩
    have hlength := (List.subperm_of_subset hnodup hsub).length_le
    rw [List.length_cons, FlatMap.keys, List.length_map] at hlength
    exact lt_of_lt_of_le hlength hsize
  · rintro ⟨hid, hfew⟩
    by_contra hnot
    rw [Bool.not_eq_true, FlatMap.contains_eq_false_iff] at hnot
    have hsub : m.idsNeedAck.keys ⊆ ids.filter (id < ·) := by
      intro k hk
      rw [FlatMap.mem_keys_iff, ← FlatMap.contains_iff] at hk
      rw [List.mem_filter, decide_eq_true_eq]
      exact ⟨h.kept k hk, h.smaller id hid hnot k hk⟩
    have hlength := (List.subperm_of_subset m.idsNeedAck.nodup_keys hsub).length_le
    rw [FlatMap.keys, List.length_map] at hlength
    have hfull : kIdsBufferSize ≤ m.idsNeedAck.entries.length := h.full id hid hnot
    omega

end Remembers

/-- **Replay protection.**  In every run no id is registered with success twice, and
after every `shrink` the ids that are kept are the largest that were: those above which
fewer than `kIdsBufferSize` were registered. -/
theorem accepted_once (calls : List Call) :
    (accepted {} calls).Nodup
      ∧ (run {} (calls ++ [.shrink])).idsNeedAck.size ≤ kIdsBufferSize
      ∧ ∀ id, (run {} (calls ++ [.shrink])).idsNeedAck.contains id
          ↔ id ∈ accepted {} calls
            ∧ ((accepted {} calls).filter (id < ·)).length < kIdsBufferSize := by
  have hrun := Remembers.nil.run calls
  rw [List.nil_append] at hrun
  have hshrink : run {} (calls ++ [.shrink]) = (run {} calls).shrink := by
    simp [run, call]
  have hsize : (run {} calls).shrink.idsNeedAck.size ≤ kIdsBufferSize := by
    rw [shrink_eq, FlatMap.size_dropFront]
    omega
  rw [hshrink]
  exact ⟨hrun.nodup, hsize, hrun.shrink.kept_iff hsize⟩

end ReceivedIdsManager

end MessengerClient
