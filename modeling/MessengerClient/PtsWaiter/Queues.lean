import MessengerClient.PtsWaiter

/-!
# MessengerClient.PtsWaiter.Queues

`queue` orders the waiting payloads and says in which of the two payload queues
each is stored.  `Stored` says that nothing is missing there, `QueuesAgree` that
nothing is left over either; a push keeps both, the second under a key that is
not taken.
-/

namespace MessengerClient

namespace PtsWaiter

variable {Channel Update Updates : Type}

/-- Every entry of `queue` has its payload stored. -/
structure Stored (w : PtsWaiter Channel Update Updates) : Prop where
  update : ∀ k, w.queue.find? k = some .SkippedUpdate → ∃ u, w.updateQueue.find? k = some u
  updates : ∀ k, w.queue.find? k = some .SkippedUpdates → ∃ u, w.updatesQueue.find? k = some u

/-- Every entry of `queue` has its payload stored, and no payload is stored
without an entry. -/
structure QueuesAgree (w : PtsWaiter Channel Update Updates) : Prop extends w.Stored where
  noUpdate : ∀ k, w.queue.find? k ≠ some .SkippedUpdate → w.updateQueue.find? k = none
  noUpdates : ∀ k, w.queue.find? k ≠ some .SkippedUpdates → w.updatesQueue.find? k = none

theorem Stored.of_empty {w : PtsWaiter Channel Update Updates} (hq : w.queue = ∅) : w.Stored :=
  ⟨fun k => by simp [hq], fun k => by simp [hq]⟩

theorem QueuesAgree.of_empty {w : PtsWaiter Channel Update Updates} (hq : w.queue = ∅)
    (hu : w.updateQueue = ∅) (hs : w.updatesQueue = ∅) : w.QueuesAgree :=
  { Stored.of_empty hq with
    noUpdate := fun k _ => by rw [hu]; rfl
    noUpdates := fun k _ => by rw [hs]; rfl }

theorem QueuesAgree.eq_empty {w : PtsWaiter Channel Update Updates} (h : w.QueuesAgree)
    (hq : w.queue = ∅) : w.updateQueue = ∅ ∧ w.updatesQueue = ∅ := by
  refine ⟨FlatMap.eq_empty_iff.mpr fun k => ?_, FlatMap.eq_empty_iff.mpr fun k => ?_⟩
  · exact h.noUpdate k (by simp [hq])
  · exact h.noUpdates k (by simp [hq])

/-! ## Keys -/

/-- The high half of a key is the `pts`. -/
theorem ptsKeyOf_div {pts : Int} (h0 : 0 ≤ pts) (h : pts < 2 ^ 31) {k : Nat} (hk : k < 2 ^ 32) :
    ((ptsKeyOf pts k / 2 ^ 32 : Nat) : Int) = pts := by
  have hor : ptsKeyOf pts k = (pts % 2 ^ 32).toNat * 2 ^ 32 + k := by
    rw [ptsKeyOf, ← Nat.shiftLeft_add_eq_or_of_lt hk, Nat.shiftLeft_eq]
  rw [hor]
  omega

/-- The key that the next `push` takes. -/
def nextKey (w : PtsWaiter Channel Update Updates) (pts : Int) : Nat :=
  ptsKeyOf pts ((w.skippedKey + 1) % 2 ^ 32)

/-! ## A push -/

theorem push_queue (w : PtsWaiter Channel Update Updates) (pts : Int)
    (p : Payload Update Updates) : (w.push pts p).queue = w.queue.emplace (w.nextKey pts) p.kind := by
  cases p <;> rfl

/-- What a push leaves in the queue of single updates. -/
theorem push_updateQueue (w : PtsWaiter Channel Update Updates) (pts : Int) :
    (∀ u, (w.push pts (.update u)).updateQueue = w.updateQueue.emplace (w.nextKey pts) u) ∧
      ∀ us, (w.push pts (.updates us)).updateQueue = w.updateQueue :=
  ⟨fun _ => rfl, fun _ => rfl⟩

/-- What a push leaves in the queue of update packs. -/
theorem push_updatesQueue (w : PtsWaiter Channel Update Updates) (pts : Int) :
    (∀ u, (w.push pts (.update u)).updatesQueue = w.updatesQueue) ∧
      ∀ us, (w.push pts (.updates us)).updatesQueue =
        w.updatesQueue.emplace (w.nextKey pts) us :=
  ⟨fun _ => rfl, fun _ => rfl⟩

/-- A push takes no payload away. -/
theorem push_find? (w : PtsWaiter Channel Update Updates) (pts : Int)
    (p : Payload Update Updates) (k : Nat) :
    (∀ u, w.updateQueue.find? k = some u → (w.push pts p).updateQueue.find? k = some u) ∧
      ∀ us, w.updatesQueue.find? k = some us → (w.push pts p).updatesQueue.find? k = some us := by
  cases p with
  | update v =>
      rw [(push_updateQueue w pts).1, (push_updatesQueue w pts).1]
      exact ⟨fun u hu => FlatMap.find?_emplace_of_some v hu, fun us hus => hus⟩
  | updates vs =>
      rw [(push_updateQueue w pts).2, (push_updatesQueue w pts).2]
      exact ⟨fun u hu => hu, fun us hus => FlatMap.find?_emplace_of_some vs hus⟩

theorem Stored.push {w : PtsWaiter Channel Update Updates} (h : w.Stored) (pts : Int)
    (p : Payload Update Updates) : (w.push pts p).Stored := by
  constructor
  · intro k hk
    rw [push_queue] at hk
    cases hold : w.queue.find? k with
    | some kind =>
        rw [FlatMap.find?_emplace_of_some _ hold] at hk
        obtain ⟨u, hu⟩ := h.update k (hold.trans hk)
        exact ⟨u, (push_find? w pts p k).1 u hu⟩
    | none =>
        cases p with
        | update v =>
            rw [(push_updateQueue w pts).1, FlatMap.find?_emplace]
            split
            · exact ⟨_, rfl⟩
            · next hne => rw [FlatMap.find?_emplace_ne _ _ hne, hold] at hk; cases hk
        | updates vs =>
            rw [FlatMap.find?_emplace] at hk
            split at hk
            · next heq => rw [← heq, hold] at hk; cases hk
            · rw [hold] at hk; cases hk
  · intro k hk
    rw [push_queue] at hk
    cases hold : w.queue.find? k with
    | some kind =>
        rw [FlatMap.find?_emplace_of_some _ hold] at hk
        obtain ⟨us, hus⟩ := h.updates k (hold.trans hk)
        exact ⟨us, (push_find? w pts p k).2 us hus⟩
    | none =>
        cases p with
        | update v =>
            rw [FlatMap.find?_emplace] at hk
            split at hk
            · next heq => rw [← heq, hold] at hk; cases hk
            · rw [hold] at hk; cases hk
        | updates vs =>
            rw [(push_updatesQueue w pts).2, FlatMap.find?_emplace]
            split
            · exact ⟨_, rfl⟩
            · next hne => rw [FlatMap.find?_emplace_ne _ _ hne, hold] at hk; cases hk

theorem QueuesAgree.push {w : PtsWaiter Channel Update Updates} (h : w.QueuesAgree) {pts : Int}
    (hk : w.queue.find? (w.nextKey pts) = none) (p : Payload Update Updates) :
    (w.push pts p).QueuesAgree := by
  refine { h.toStored.push pts p with noUpdate := fun k => ?_, noUpdates := fun k => ?_ }
  · have hold := h.noUpdate k
    rw [push_queue, FlatMap.find?_emplace]
    cases p with
    | update u =>
        rw [(push_updateQueue w pts).1, FlatMap.find?_emplace]
        split <;> simp_all [Payload.kind]
    | updates us =>
        rw [(push_updateQueue w pts).2]
        split <;> simp_all [Payload.kind]
  · have hold := h.noUpdates k
    rw [push_queue, FlatMap.find?_emplace]
    cases p with
    | update u =>
        rw [(push_updatesQueue w pts).1]
        split <;> simp_all [Payload.kind]
    | updates us =>
        rw [(push_updatesQueue w pts).2, FlatMap.find?_emplace]
        split <;> simp_all [Payload.kind]

section Apply

variable [Inhabited Update] [Inhabited Updates]

/-- A push leaves what the other entries point to. -/
theorem fetch_push_of_mem {w : PtsWaiter Channel Update Updates} (h : w.Stored) (pts : Int)
    (p : Payload Update Updates) {e : Nat × PtsSkippedQueue} (he : e ∈ w.queue.entries) :
    (w.push pts p).fetch e = w.fetch e := by
  obtain ⟨k, kind⟩ := e
  have hk := FlatMap.mem_entries_iff.mp he
  cases kind with
  | SkippedUpdate =>
      obtain ⟨u, hu⟩ := h.update k hk
      rw [fetch, fetch, hu, (push_find? w pts p k).1 u hu]
  | SkippedUpdates =>
      obtain ⟨us, hus⟩ := h.updates k hk
      rw [fetch, fetch, hus, (push_find? w pts p k).2 us hus]

/-- A payload pushed under a fresh key is what its entry points to. -/
theorem fetch_push_new {w : PtsWaiter Channel Update Updates} (h : w.QueuesAgree) {pts : Int}
    (hk : w.queue.find? (w.nextKey pts) = none) (p : Payload Update Updates) :
    (w.push pts p).fetch (w.nextKey pts, p.kind) = p := by
  cases p with
  | update u =>
      have hu := h.noUpdate (w.nextKey pts) (by simp [hk])
      rw [Payload.kind, fetch, (push_updateQueue w pts).1, FlatMap.find?_emplace_self u hu,
        Option.getD_some]
  | updates us =>
      have hus := h.noUpdates (w.nextKey pts) (by simp [hk])
      rw [Payload.kind, fetch, (push_updatesQueue w pts).2, FlatMap.find?_emplace_self us hus,
        Option.getD_some]

/-- A push under a fresh key adds the payload to those that wait. -/
theorem queued_push {w : PtsWaiter Channel Update Updates} (h : w.QueuesAgree) {pts : Int}
    (hk : w.queue.find? (w.nextKey pts) = none) (p : Payload Update Updates) :
    (w.push pts p).queued.Perm (p :: w.queued) := by
  have hperm := (FlatMap.emplace_entries_perm p.kind hk).map (w.push pts p).fetch
  rw [← push_queue, List.map_cons, fetch_push_new h hk p,
    List.map_congr_left fun e he => fetch_push_of_mem h.toStored pts p he] at hperm
  exact hperm

/-- Whatever key a push takes, it loses none of those that wait. -/
theorem queued_subset_push {w : PtsWaiter Channel Update Updates} (h : w.Stored) (pts : Int)
    (p : Payload Update Updates) : w.queued ⊆ (w.push pts p).queued := by
  intro q hq
  obtain ⟨e, he, rfl⟩ := List.mem_map.mp hq
  refine List.mem_map.mpr ⟨e, ?_, fetch_push_of_mem h pts p he⟩
  rw [push_queue]
  exact FlatMap.mem_emplace _ he

end Apply

end PtsWaiter

end MessengerClient
