import MessengerClient.Lib.Coverage
import MessengerClient.PtsWaiter.Queues
import MessengerClient.PtsWaiter.Step

/-!
# MessengerClient.PtsWaiter.Order

Updates whose ranges `(pts - count, pts]` cut `(p₀, pₙ]` into pieces, delivered in
any order.  The waiter sees two numbers only: after a prefix of the deliveries
`last` is the largest end and `count` is `p₀` plus the lengths, so by
`covered_eq_Ioc_iff` they agree exactly when the prefix left no hole.  `InOrder`
carries this along a run together with what is handed over and what waits.

An update carries its own `pts` and `pts_count`; the two functions `pts` and
`count` read them off a payload.
-/

namespace MessengerClient

namespace PtsWaiter

variable {Channel Update Updates : Type}

section Ranges

variable (pts count : Payload Update Updates → Int)

/-- The range an update accounts for. -/
def rangeOf (p : Payload Update Updates) : Range := ⟨pts p - count p, pts p⟩

variable {pts count} {p₀ pN : Int} {pre ps : List (Payload Update Updates)}
variable {p : Payload Update Updates}

/-- What the next update of a tiling looks like after the prefix `pre`. -/
theorem next_proper (htiles : Tiles (ps.map (rangeOf pts count)) p₀ pN)
    (hps : pre ++ [p] <+: ps) : 0 < count p ∧ p₀ ≤ pts p - count p ∧ pts p ≤ pN := by
  have hmem : rangeOf pts count p ∈ ps.map (rangeOf pts count) :=
    List.mem_map_of_mem (hps.subset (by simp))
  have hp := htiles.proper _ hmem
  have hb := htiles.bounds hmem
  simp only [rangeOf] at hp hb
  omega

theorem prefix_proper (htiles : Tiles (ps.map (rangeOf pts count)) p₀ pN) (hps : pre <+: ps) :
    ∀ r ∈ pre.map (rangeOf pts count), r.lo < r.hi ∧ p₀ ≤ r.lo := by
  intro r hr
  have hmem : r ∈ ps.map (rangeOf pts count) := (hps.map _).subset hr
  exact ⟨htiles.proper r hmem, (htiles.bounds hmem).1⟩

theorem prefix_apart (htiles : Tiles (ps.map (rangeOf pts count)) p₀ pN) (hps : pre <+: ps) :
    Apart (pre.map (rangeOf pts count)) :=
  htiles.apart.sublist (hps.map _).sublist

/-- The next update meets no delivered one. -/
theorem next_disjoint (htiles : Tiles (ps.map (rangeOf pts count)) p₀ pN)
    (hps : pre ++ [p] <+: ps) :
    ∀ r ∈ pre.map (rangeOf pts count), Disjoint r.span (rangeOf pts count p).span := by
  have hap := prefix_apart htiles hps
  rw [List.map_append, List.map_singleton, apart_append_singleton] at hap
  exact hap.2

/-- The end of the next update is not covered yet. -/
theorem next_not_covered (htiles : Tiles (ps.map (rangeOf pts count)) p₀ pN)
    (hps : pre ++ [p] <+: ps) : pts p ∉ covered (pre.map (rangeOf pts count)) := by
  intro hin
  obtain ⟨r, hr, hpr⟩ := mem_covered.mp hin
  have hpos := (next_proper htiles hps).1
  refine Finset.disjoint_left.mp (next_disjoint htiles hps r hr) hpr ?_
  simp only [rangeOf, Range.mem_span]
  omega

/-- No delivered update has the same `pts` as the next one. -/
theorem next_pts_ne (htiles : Tiles (ps.map (rangeOf pts count)) p₀ pN)
    (hps : pre ++ [p] <+: ps) : ∀ q ∈ pre, pts q ≠ pts p := by
  intro q hq heq
  have hmem : rangeOf pts count q ∈ pre.map (rangeOf pts count) := List.mem_map_of_mem hq
  have hq := prefix_proper htiles ((List.prefix_append _ _).trans hps) _ hmem
  refine next_not_covered htiles hps (mem_covered.mpr ⟨_, hmem, ?_⟩)
  simp only [rangeOf, Range.mem_span] at hq ⊢
  omega

/-- All updates of a tiling end at different numbers. -/
theorem tiling_pts_ne (htiles : Tiles (ps.map (rangeOf pts count)) p₀ pN) :
    ps.Pairwise (fun x y => pts x ≠ pts y) := by
  refine (List.pairwise_map.mp htiles.apart).imp_of_mem fun {x y} hx hy hdis heq => ?_
  have hpx := htiles.proper _ (List.mem_map_of_mem (f := rangeOf pts count) hx)
  have hpy := htiles.proper _ (List.mem_map_of_mem (f := rangeOf pts count) hy)
  have hinx : pts x ∈ (rangeOf pts count x).span := by
    simp only [rangeOf, Range.mem_span] at hpx ⊢
    omega
  refine Finset.disjoint_left.mp hdis hinx ?_
  simp only [rangeOf, Range.mem_span] at hpy ⊢
  omega

end Ranges

variable [Inhabited Update] [Inhabited Updates]
variable (pts count : Payload Update Updates → Int) (channel : Channel)

/-- One delivery. -/
def deliver (w : PtsWaiter Channel Update Updates) (p : Payload Update Updates) :
    PtsWaiter Channel Update Updates :=
  (w.updateAndApplyWith channel (pts p) (count p) p).1

/-- The deliveries `ps`, one after the other. -/
def deliverAll (w : PtsWaiter Channel Update Updates) (ps : List (Payload Update Updates)) :
    PtsWaiter Channel Update Updates :=
  ps.foldl (deliver pts count channel) w

/-! ## The invariant -/

/-- The state after the deliveries `pre`, of which `out` were handed to the owner. -/
structure InOrder (p₀ : Int) (before : List (Payload Update Updates))
    (w : PtsWaiter Channel Update Updates) (pre out : List (Payload Update Updates)) : Prop where
  requesting : w.requesting = false
  level : w.applySkippedLevel = 0
  largest : w.last = top p₀ (pre.map (rangeOf pts count))
  summed : w.count = p₀ + total (pre.map (rangeOf pts count))
  start : p₀ ≤ w.good
  reached : Finset.Ioc p₀ w.good ⊆ covered (pre.map (rangeOf pts count))
  owner : handed w.owner = before ++ out
  perm : (out ++ w.queued).Perm pre
  sorted : out.Pairwise (fun x y => pts x < pts y)
  done : ∀ p ∈ out, pts p ≤ w.good
  early : ∀ p ∈ w.queued, w.good < pts p
  agree : w.QueuesAgree
  keyed : ∀ e ∈ w.queue.entries, ((e.1 / 2 ^ 32 : Nat) : Int) = pts (w.fetch e)
  settled : (w.queue.entries = [] ∧ w.good = w.last ∧ w.last = w.count) ∨
    (w.queue.entries ≠ [] ∧ w.waitingForSkipped = true ∧ w.last ≠ w.count)

variable {pts count} {p₀ pN : Int} {before pre out ps : List (Payload Update Updates)}
variable {w : PtsWaiter Channel Update Updates} {p : Payload Update Updates}

theorem inOrder_init (hreq : w.requesting = false) :
    InOrder pts count p₀ (handed w.owner) (w.init p₀) [] [] where
  requesting := hreq
  level := rfl
  largest := rfl
  summed := by simp [init, clearSkippedUpdates, total]
  start := le_refl p₀
  reached := by simp [init, clearSkippedUpdates]
  owner := (List.append_nil _).symm
  perm := List.Perm.refl _
  sorted := List.Pairwise.nil
  done := by simp
  early := by simp [queued, init, clearSkippedUpdates]
  agree := QueuesAgree.of_empty rfl rfl rfl
  keyed := by simp [init, clearSkippedUpdates]
  settled := .inl ⟨rfl, rfl, rfl⟩

namespace InOrder

/-! ## The two numbers -/

theorem counted_last (h : InOrder pts count p₀ before w pre out) :
    (w.counted (pts p) (count p)).last = top p₀ ((pre ++ [p]).map (rangeOf pts count)) := by
  rw [List.map_append, List.map_singleton, top_append_singleton, ← h.largest]
  rfl

theorem counted_count (h : InOrder pts count p₀ before w pre out) :
    (w.counted (pts p) (count p)).count =
      p₀ + total ((pre ++ [p]).map (rangeOf pts count)) := by
  have hp : total [rangeOf pts count p] = count p := by
    simp [total, rangeOf, Range.len]
  rw [List.map_append, List.map_singleton, total_append, hp, ← Int.add_assoc, ← h.summed]
  rfl

/-- The two numbers agree exactly when the deliveries left no hole. -/
theorem counted_agree_iff (h : InOrder pts count p₀ before w pre out)
    (htiles : Tiles (ps.map (rangeOf pts count)) p₀ pN) (hps : pre ++ [p] <+: ps) :
    (w.counted (pts p) (count p)).last = (w.counted (pts p) (count p)).count ↔
      covered ((pre ++ [p]).map (rangeOf pts count)) =
        Finset.Ioc p₀ (w.counted (pts p) (count p)).last := by
  have hp := prefix_proper htiles hps
  rw [h.counted_last, h.counted_count,
    covered_eq_Ioc_iff (fun r hr => le_of_lt (hp r hr).1) (prefix_apart htiles hps)
      (fun r hr => (hp r hr).2)]

/-- A new update lies above everything reached. -/
theorem good_lt (h : InOrder pts count p₀ before w pre out)
    (htiles : Tiles (ps.map (rangeOf pts count)) p₀ pN) (hps : pre ++ [p] <+: ps) :
    w.good < pts p := by
  obtain ⟨hc, hlo, -⟩ := next_proper htiles hps
  by_contra hle
  exact next_not_covered htiles hps (h.reached (Finset.mem_Ioc.mpr ⟨by omega, by omega⟩))

/-! ## The queue -/

/-- The key of the next update is not taken: no waiting update has its `pts`. -/
theorem fresh_key (h : InOrder pts count p₀ before w pre out) (h0 : 0 ≤ p₀) (hN : pN < 2 ^ 31)
    (htiles : Tiles (ps.map (rangeOf pts count)) p₀ pN) (hps : pre ++ [p] <+: ps) :
    w.queue.find? (w.nextKey (pts p)) = none := by
  obtain ⟨hc, hlo, hhi⟩ := next_proper htiles hps
  rw [FlatMap.find?_eq_none_iff]
  intro e he heq
  have hkey := h.keyed e he
  rw [heq, nextKey, ptsKeyOf_div (by omega) (by omega) (Nat.mod_lt _ (by decide))] at hkey
  have hmem : w.fetch e ∈ pre :=
    h.perm.subset (List.mem_append_right _ (List.mem_map_of_mem he))
  exact next_pts_ne htiles hps _ hmem hkey.symm

theorem keyed_push (h : InOrder pts count p₀ before w pre out) (h0 : 0 ≤ p₀) (hN : pN < 2 ^ 31)
    (htiles : Tiles (ps.map (rangeOf pts count)) p₀ pN) (hps : pre ++ [p] <+: ps) :
    ∀ e ∈ (w.push (pts p) p).queue.entries,
      ((e.1 / 2 ^ 32 : Nat) : Int) = pts ((w.push (pts p) p).fetch e) := by
  obtain ⟨hc, hlo, hhi⟩ := next_proper htiles hps
  have hk := h.fresh_key h0 hN htiles hps
  intro e he
  rw [push_queue] at he
  cases List.mem_cons.mp ((FlatMap.emplace_entries_perm _ hk).subset he) with
  | inl hfirst =>
      rw [hfirst, fetch_push_new h.agree hk, nextKey, ptsKeyOf_div (by omega) (by omega) (Nat.mod_lt _ (by decide))]
  | inr hrest => rw [fetch_push_of_mem h.agree.toStored _ _ hrest, h.keyed e hrest]

/-- Waiting updates come out in `pts` order, since the keys are sorted. -/
theorem queued_sorted (w : PtsWaiter Channel Update Updates)
    (hk : ∀ e ∈ w.queue.entries, ((e.1 / 2 ^ 32 : Nat) : Int) = pts (w.fetch e)) :
    w.queued.Pairwise (fun x y => pts x ≤ pts y) := by
  rw [queued, List.pairwise_map]
  refine w.queue.sorted.imp_of_mem fun {a b} ha hb hlt => ?_
  rw [← hk a ha, ← hk b hb]
  exact_mod_cast Nat.div_le_div_right (le_of_lt hlt)

/-! ## One delivery -/

/-- Without a hole and without waiting updates, the update is handed over alone. -/
theorem direct (h : InOrder pts count p₀ before w pre out)
    (htiles : Tiles (ps.map (rangeOf pts count)) p₀ pN) (hps : pre ++ [p] <+: ps)
    (hq : w.queue.entries = [])
    (heq : (w.counted (pts p) (count p)).last = (w.counted (pts p) (count p)).count) :
    InOrder pts count p₀ before
      { w.closed (pts p) (count p) with owner := w.owner ++ [p.call] }
      (pre ++ [p]) (out ++ [p]) where
  requesting := h.requesting
  level := h.level
  largest := h.counted_last
  summed := h.counted_count
  start := le_of_le_of_eq (le_top _ _) h.counted_last.symm
  reached := ((h.counted_agree_iff htiles hps).mp heq).superset
  owner := by rw [handed_append, handed_call, h.owner, List.append_assoc]
  perm := by
    have hperm := h.perm
    simp only [queued, closed, counted, hq, List.map_nil, List.append_nil] at hperm ⊢
    exact hperm.append_right [p]
  sorted := by
    rw [List.pairwise_append]
    refine ⟨h.sorted, List.pairwise_singleton _ _, fun x hx y hy => ?_⟩
    rw [List.mem_singleton.mp hy]
    exact lt_of_le_of_lt (h.done x hx) (h.good_lt htiles hps)
  done := by
    intro q hq
    have hq' : q ∈ pre ++ [p] := by
      cases List.mem_append.mp hq with
      | inl ho => exact List.mem_append_left _ (h.perm.subset (List.mem_append_left _ ho))
      | inr hp => exact List.mem_append_right _ hp
    exact le_of_le_of_eq (hi_le_top (List.mem_map_of_mem (f := rangeOf pts count) hq'))
      h.counted_last.symm
  early := by simp [queued, closed, counted, hq]
  agree := ⟨⟨h.agree.update, h.agree.updates⟩, h.agree.noUpdate, h.agree.noUpdates⟩
  keyed := by simp [closed, counted, hq]
  settled := .inl ⟨hq, rfl, heq⟩

/-- Without a hole everything that waits is handed over together with the update. -/
theorem flush (h : InOrder pts count p₀ before w pre out) (h0 : 0 ≤ p₀) (hN : pN < 2 ^ 31)
    (htiles : Tiles (ps.map (rangeOf pts count)) p₀ pN) (hps : pre ++ [p] <+: ps)
    (heq : (w.counted (pts p) (count p)).last = (w.counted (pts p) (count p)).count)
    {calls : List (OwnerCall Channel Update Updates)}
    (hcalls : handed calls = handed w.owner ++ (w.push (pts p) p).queued) (key : Nat) :
    InOrder pts count p₀ before
      { w.closed (pts p) (count p) with
        owner := calls, waitingForSkipped := false, queue := ∅, updateQueue := ∅
        updatesQueue := ∅, applySkippedLevel := 0, skippedKey := key }
      (pre ++ [p]) (out ++ (w.push (pts p) p).queued) := by
  have hpush := queued_push h.agree (h.fresh_key h0 hN htiles hps) p
  have hperm : (out ++ (w.push (pts p) p).queued).Perm (pre ++ [p]) :=
    calc (out ++ (w.push (pts p) p).queued).Perm (out ++ (p :: w.queued)) :=
          hpush.append_left out
      _ |>.Perm (p :: (out ++ w.queued)) := List.perm_middle
      _ |>.Perm (p :: pre) := h.perm.cons p
      _ |>.Perm (pre ++ [p]) := (List.perm_append_singleton p pre).symm
  refine
    { requesting := h.requesting, level := rfl, largest := h.counted_last
      summed := h.counted_count
      start := le_of_le_of_eq (le_top _ _) h.counted_last.symm
      reached := ((h.counted_agree_iff htiles hps).mp heq).superset
      owner := by rw [hcalls, h.owner, List.append_assoc]
      perm := by simpa [queued] using hperm
      sorted := ?_
      done := ?_
      early := by simp [queued]
      agree := QueuesAgree.of_empty rfl rfl rfl
      keyed := by simp
      settled := .inl ⟨rfl, rfl, heq⟩ }
  · rw [List.pairwise_append]
    refine ⟨h.sorted, ?_, fun x hx y hy => ?_⟩
    · have hle := queued_sorted _ (h.keyed_push h0 hN htiles hps)
      have hne : (pre ++ [p]).Pairwise (fun x y => pts x ≠ pts y) :=
        (tiling_pts_ne htiles).sublist hps.sublist
      have hne' := ((hperm.pairwise_iff (fun h => h.symm)).mpr hne).sublist
        (List.sublist_append_right out _)
      exact (hle.and hne').imp fun h => lt_of_le_of_ne h.1 h.2
    · refine lt_of_le_of_lt (h.done x hx) ?_
      cases List.mem_cons.mp (hpush.subset hy) with
      | inl hp => exact hp ▸ h.good_lt htiles hps
      | inr hw => exact h.early y hw
  · intro q hq
    exact le_of_le_of_eq
      (hi_le_top (List.mem_map_of_mem (f := rangeOf pts count) (hperm.subset hq)))
      h.counted_last.symm

/-- With a hole left the update joins the queue. -/
theorem gap (h : InOrder pts count p₀ before w pre out) (h0 : 0 ≤ p₀) (hN : pN < 2 ^ 31)
    (htiles : Tiles (ps.map (rangeOf pts count)) p₀ pN) (hps : pre ++ [p] <+: ps)
    (hne : (w.counted (pts p) (count p)).last ≠ (w.counted (pts p) (count p)).count)
    {calls : List (OwnerCall Channel Update Updates)} (hcalls : handed calls = handed w.owner) :
    InOrder pts count p₀ before ((w.armed (pts p) (count p) calls).push (pts p) p)
      (pre ++ [p]) out := by
  have hk := h.fresh_key h0 hN htiles hps
  have hpush := queued_push h.agree hk p
  have hagree := h.agree.push hk p
  have hstate : (w.armed (pts p) (count p) calls).push (pts p) p =
      { w.push (pts p) p with
        owner := calls, waitingForSkipped := true
        last := (w.counted (pts p) (count p)).last
        count := (w.counted (pts p) (count p)).count } := by cases p <;> rfl
  have hgood : (w.push (pts p) p).good = w.good := by rw [push_frame]
  rw [hstate]
  exact
    { requesting := by rw [push_frame]; exact h.requesting
      level := by rw [push_frame]; exact h.level
      largest := h.counted_last
      summed := h.counted_count
      start := le_of_le_of_eq h.start hgood.symm
      reached := by
        rw [hgood]
        intro x hx
        obtain ⟨r, hr, hxr⟩ := mem_covered.mp (h.reached hx)
        exact mem_covered.mpr ⟨r, by simp [List.mem_map.mp hr], hxr⟩
      owner := hcalls.trans h.owner
      perm := (hpush.append_left out).trans
        ((List.perm_middle.trans (h.perm.cons p)).trans (List.perm_append_singleton p pre).symm)
      sorted := h.sorted
      done := fun q hq => le_of_le_of_eq (h.done q hq) hgood.symm
      early := by
        intro q hq
        rw [hgood]
        cases List.mem_cons.mp (hpush.subset hq) with
        | inl hp => exact hp ▸ h.good_lt htiles hps
        | inr hw => exact h.early q hw
      agree := ⟨⟨hagree.update, hagree.updates⟩, hagree.noUpdate, hagree.noUpdates⟩
      keyed := h.keyed_push h0 hN htiles hps
      settled := .inr ⟨push_queue_ne_nil w _ p, rfl, hne⟩ }

/-- **Every delivery keeps the invariant.** -/
theorem deliver (h : InOrder pts count p₀ before w pre out) (h0 : 0 < p₀) (hN : pN < 2 ^ 31)
    (htiles : Tiles (ps.map (rangeOf pts count)) p₀ pN) (hps : pre ++ [p] <+: ps) :
    ∃ out', InOrder pts count p₀ before (w.deliver pts count channel p) (pre ++ [p]) out' := by
  have hgood := h.good_lt htiles hps
  have hcount := (next_proper htiles hps).1
  obtain ⟨hr, -⟩ | ⟨-, hle, -⟩ | ⟨-, -, hi, -⟩ | ⟨-, -, -, heq, hstep⟩ |
      ⟨-, -, -, hne, calls, hcalls, hstep⟩ :=
    updateAndApplyWith_cases w channel (pts p) (count p) p h.level
  · exact absurd hr (by rw [h.requesting]; decide)
  · exact absurd hle (not_le.mpr hgood)
  · have hstart := h.start
    simp only [inited, decide_eq_false_iff_not] at hi
    omega
  · rw [PtsWaiter.deliver, hstep]
    obtain ⟨hidle, hover⟩ | ⟨hw, hq, calls, hcalls, hover⟩ := handOver_cases
      (w.closed (pts p) (count p)) channel (pts p) p
    · have hq : w.queue.entries = [] := by
        obtain ⟨hq, -⟩ | ⟨hq, hwait, -⟩ := h.settled
        · exact hq
        · exact hidle.resolve_left (by simp [closed, counted, hwait])
      exact ⟨_, hover ▸ h.direct htiles hps hq heq⟩
    · have hqueued : ((w.closed (pts p) (count p)).push (pts p) p).queued =
          (w.push (pts p) p).queued := by cases p <;> rfl
      rw [hqueued] at hcalls
      exact ⟨_, hover ▸ h.flush h0.le hN htiles hps heq hcalls _⟩
  · rw [PtsWaiter.deliver, hstep, if_neg hcount.ne']
    exact ⟨out, h.gap h0.le hN htiles hps hne hcalls⟩

/-- **Every run of deliveries keeps the invariant.** -/
theorem deliverAll (h : InOrder pts count p₀ before w [] []) (h0 : 0 < p₀) (hN : pN < 2 ^ 31)
    (htiles : Tiles (ps.map (rangeOf pts count)) p₀ pN) (hpre : pre <+: ps) :
    ∃ out, InOrder pts count p₀ before (w.deliverAll pts count channel pre) pre out := by
  induction pre using List.reverseRecOn with
  | nil => exact ⟨[], h⟩
  | append_singleton pre p ih =>
      obtain ⟨out, hout⟩ := ih ((List.prefix_append pre [p]).trans hpre)
      rw [PtsWaiter.deliverAll, List.foldl_append]
      exact hout.deliver channel h0 hN htiles hpre

/-- What was handed over so far had everything before it. -/
theorem smaller_arrived (h : InOrder pts count p₀ before w pre out)
    (htiles : Tiles (ps.map (rangeOf pts count)) p₀ pN) (hpre : pre <+: ps)
    {v x : Payload Update Updates} (hv : v ∈ out) (hx : x ∈ ps) (hlt : pts x < pts v) :
    x ∈ pre := by
  have hmem := List.mem_map_of_mem (f := rangeOf pts count) hx
  have hproper := htiles.proper _ hmem
  have hbounds := htiles.bounds hmem
  have hdone := h.done v hv
  have hself : pts x ∈ (rangeOf pts count x).span := by
    simp only [rangeOf, Range.mem_span] at hproper ⊢
    omega
  simp only [rangeOf] at hproper hbounds
  have hin : pts x ∈ Finset.Ioc p₀ w.good := Finset.mem_Ioc.mpr ⟨by omega, by omega⟩
  obtain ⟨r, hr, hxr⟩ := mem_covered.mp (h.reached hin)
  obtain ⟨y, hy, rfl⟩ := List.mem_map.mp hr
  exact htiles.apart.eq_of_mem hx (hpre.subset hy) hself hxr ▸ hy

end InOrder

/-! ## The whole run -/

/-- **Nothing lost, nothing twice, nothing out of order.**  Updates that partition
`(p₀, pN]`, delivered once each in any order to a waiter that starts at `p₀`. -/
theorem updates_delivered_in_order (w : PtsWaiter Channel Update Updates)
    (hreq : w.requesting = false) (h0 : 0 < p₀) (hN : pN < 2 ^ 31)
    (htiles : Tiles (ps.map (rangeOf pts count)) p₀ pN) :
    (∃ out, handed ((w.init p₀).deliverAll pts count channel ps).owner = handed w.owner ++ out ∧
      out.Perm ps ∧ out.Nodup ∧ out.Pairwise (fun x y => pts x < pts y)) ∧
    (∀ pre, pre <+: ps → ∃ out,
      handed ((w.init p₀).deliverAll pts count channel pre).owner = handed w.owner ++ out ∧
      ∀ v ∈ out, ∀ x ∈ ps, pts x < pts v → x ∈ pre) ∧
    ((w.init p₀).deliverAll pts count channel ps).current = pN ∧
    ((w.init p₀).deliverAll pts count channel ps).queue = ∅ ∧
    ((w.init p₀).deliverAll pts count channel ps).updateQueue = ∅ ∧
    ((w.init p₀).deliverAll pts count channel ps).updatesQueue = ∅ ∧
    (((w.init p₀).deliverAll pts count channel ps).waitingForSkipped = false ∨
      ((w.init p₀).deliverAll pts count channel ps).queue = ∅) := by
  have hinit : InOrder pts count p₀ (handed w.owner) (w.init p₀) [] [] := inOrder_init hreq
  obtain ⟨out, hrun⟩ := hinit.deliverAll channel h0 hN htiles List.prefix_rfl
  have htop := htiles.top_eq
  have hsum := htiles.total_eq
  obtain ⟨hq, hgood, -⟩ | ⟨-, -, hne⟩ := hrun.settled
  · have hempty := FlatMap.entries_eq_nil_iff.mp hq
    obtain ⟨hu, hus⟩ := hrun.agree.eq_empty hempty
    have hperm : out.Perm ps := by simpa [queued, hq] using hrun.perm
    have hnodup : out.Nodup :=
      hrun.sorted.imp fun hlt heq => (heq ▸ hlt).false
    refine ⟨⟨out, hrun.owner, hperm, hnodup, hrun.sorted⟩, fun pre hpre => ?_, ?_, hempty, hu, hus,
      .inr hempty⟩
    · obtain ⟨out', hrun'⟩ := hinit.deliverAll channel h0 hN htiles hpre
      exact ⟨out', hrun'.owner, fun v hv x hx hlt => hrun'.smaller_arrived htiles hpre hv hx hlt⟩
    · rw [current, hgood, hrun.largest, htop]
  · exact absurd (by rw [hrun.largest, hrun.summed, htop]; omega) hne

/-- Three updates behind `10`, the last one first. -/
theorem updates_delivered_in_order_backwards :
    ((({} : PtsWaiter Unit Int Int).init 10).deliverAll
      (fun | .update u => u | .updates us => us) (fun _ => 1) ()
      [.update 13, .updates 11, .update 12]).current = 13 :=
  (updates_delivered_in_order () {} rfl (by decide) (show (13 : Int) < 2 ^ 31 by decide)
    { le := by decide, proper := by decide, apart := by unfold Apart; decide
      cover := by decide }).2.2.1

end PtsWaiter

end MessengerClient

