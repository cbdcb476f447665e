import MessengerClient.Lib.Coverage
import MessengerClient.PtsWaiter.Step

/-!
# MessengerClient.PtsWaiter.Duplicates

Updates that may come twice.  `updated` drops one only when its `pts` is confirmed
already; a copy of an update that waits behind a gap is counted a second time and
can close the gap in the two numbers without closing it in the `pts`.
`never_skips_pts` is what remains true: as long as nothing is counted twice, every
confirmed `pts` was received.
-/

namespace MessengerClient

namespace PtsWaiter

variable {Channel Update Updates : Type}

/-- One call of `updateAndApply`, of any overload, with a positive count. -/
structure Delivery (Update Updates : Type) where
  payload : Option (Payload Update Updates)
  pts : Int
  count : Int
  pos : 0 < count

/-- The `pts` values a delivery accounts for. -/
def Delivery.range (d : Delivery Update Updates) : Range := ⟨d.pts - d.count, d.pts⟩

/-! ## The invariant -/

/-- The state after the deliveries `pre`, of which the two numbers took in `acc`. -/
structure Counts (p₀ : Int) (w : PtsWaiter Channel Update Updates)
    (pre : List (Delivery Update Updates)) (acc : List Range) : Prop where
  level : w.applySkippedLevel = 0
  requesting : w.requesting = false
  start : p₀ ≤ w.good
  last : w.last = top p₀ acc
  count : w.count = p₀ + total acc
  proper : ∀ r ∈ acc, r.lo ≤ r.hi ∧ p₀ ≤ r.lo
  apart : Apart acc
  received : ∀ r ∈ acc, ∃ d ∈ pre, d.range = r
  reached : Finset.Ioc p₀ w.good ⊆ covered acc

theorem counts_init {w : PtsWaiter Channel Update Updates} {p₀ : Int} (hr : w.requesting = false) : Counts p₀ (w.init p₀) [] [] where
  level := rfl
  requesting := hr
  start := le_refl p₀
  last := rfl
  count := by simp [init, clearSkippedUpdates, total]
  proper := by simp
  apart := List.Pairwise.nil
  received := by simp
  reached := by simp [init, clearSkippedUpdates]

/-! ## Deliveries -/

variable [Inhabited Update] [Inhabited Updates] (channel : Channel)

def receive (w : PtsWaiter Channel Update Updates) (d : Delivery Update Updates) :
    PtsWaiter Channel Update Updates :=
  match d.payload with
  | none => (w.updateAndApply channel d.pts d.count).1
  | some p => (w.updateAndApplyWith channel d.pts d.count p).1

def receiveAll (w : PtsWaiter Channel Update Updates) (ds : List (Delivery Update Updates)) :
    PtsWaiter Channel Update Updates :=
  ds.foldl (receive channel) w

/-- Every confirmed `pts` above `p₀` lies in the range of a delivery. -/
def NeverSkips (w : PtsWaiter Channel Update Updates) (p₀ : Int)
    (ds : List (Delivery Update Updates)) : Prop :=
  ∀ pre, pre <+: ds → ∀ x, p₀ < x → x ≤ ((w.init p₀).receiveAll channel pre).current →
    ∃ d ∈ pre, x ∈ d.range.span

/-- A delivery is dropped as confirmed, or all its `pts` are new: above `p₀` and in no
range delivered before. -/
def CountedOnce (w : PtsWaiter Channel Update Updates) (p₀ : Int)
    (ds : List (Delivery Update Updates)) : Prop :=
  ∀ pre d, pre ++ [d] <+: ds →
    d.pts ≤ ((w.init p₀).receiveAll channel pre).current ∨
      (p₀ ≤ d.pts - d.count ∧ ∀ e ∈ pre, Disjoint e.range.span d.range.span)

/-! ## The numbers -/

variable {w : PtsWaiter Channel Update Updates}

/-- A request in flight takes no number in. -/
theorem receive_requesting (hr : w.requesting = true) (d : Delivery Update Updates) :
    SameNumbers w (w.receive channel d) := by
  rw [receive]
  split
  · rw [updateAndApply_requesting channel d.pts d.count hr]
    exact sameNumbers_applySkippedUpdates w channel
  · next p _ =>
    rw [updateAndApplyWith_requesting channel d.pts d.count p hr]
    exact sameNumbers_handOver w channel d.pts p

/-- A delivery is dropped, or the two numbers take it in and are compared. -/
theorem receive_cases (hl : w.applySkippedLevel = 0) (hr : w.requesting = false)
    (hi : w.inited = true) (d : Delivery Update Updates) :
    (d.pts ≤ w.good ∧ w.receive channel d = w) ∨
    (w.good < d.pts ∧
      (((w.counted d.pts d.count).last = (w.counted d.pts d.count).count ∧
          SameNumbers (w.closed d.pts d.count) (w.receive channel d)) ∨
        ((w.counted d.pts d.count).last ≠ (w.counted d.pts d.count).count ∧
          SameNumbers (w.counted d.pts d.count) (w.receive channel d)))) := by
  have hpos := d.pos
  rw [receive]
  split
  · obtain ⟨hbad, -⟩ | ⟨-, hle, -, hup⟩ | ⟨-, -, hbad, -⟩ | ⟨-, hgt, -, heq, hup⟩ |
        ⟨-, hgt, -, hne, calls, -, hup⟩ := updateAndApply_cases w channel d.pts d.count hl
    · simp [hr] at hbad
    · exact .inl ⟨hle, by rw [hup]⟩
    · simp [hi] at hbad
    · rw [hup]
      exact .inr ⟨by omega, .inl ⟨heq, sameNumbers_applySkippedUpdates _ channel⟩⟩
    · rw [hup, if_neg hpos.ne']
      exact .inr ⟨by omega, .inr ⟨hne, rfl, rfl, rfl, rfl, id⟩⟩
  · next p _ =>
    obtain ⟨hbad, -⟩ | ⟨-, hle, -, hup⟩ | ⟨-, -, hbad, -⟩ | ⟨-, hgt, -, heq, hup⟩ |
        ⟨-, hgt, -, hne, calls, -, hup⟩ := updateAndApplyWith_cases w channel d.pts d.count p hl
    · simp [hr] at hbad
    · exact .inl ⟨hle, by rw [hup]⟩
    · simp [hi] at hbad
    · rw [hup]
      exact .inr ⟨by omega, .inl ⟨heq, sameNumbers_handOver _ channel d.pts p⟩⟩
    · rw [hup, if_neg hpos.ne']
      have hsame := sameNumbers_push (w.armed d.pts d.count calls) d.pts p
      exact .inr ⟨by omega, .inr ⟨hne, hsame.good, hsame.last, hsame.count, hsame.requesting,
        hsame.level⟩⟩

/-! ## One delivery -/

variable {p₀ : Int} {pre : List (Delivery Update Updates)} {acc : List Range}

/-- One delivery that is dropped or new. -/
theorem Counts.receive (h : Counts p₀ w pre acc) (h0 : 0 < p₀) (d : Delivery Update Updates)
    (hd : d.pts ≤ w.current ∨
      (p₀ ≤ d.pts - d.count ∧ ∀ e ∈ pre, Disjoint e.range.span d.range.span)) :
    ∃ acc', Counts p₀ (w.receive channel d) (pre ++ [d]) acc' := by
  have hi : w.inited = true := decide_eq_true (lt_of_lt_of_le h0 h.start)
  have hpos := d.pos
  have hold : ∀ r ∈ acc, ∃ e ∈ pre ++ [d], e.range = r := fun r hr =>
    (h.received r hr).imp fun e he => ⟨List.mem_append_left _ he.1, he.2⟩
  obtain ⟨-, hsame⟩ | ⟨hgt, hnum⟩ := receive_cases channel h.level h.requesting hi d
  · rw [hsame]
    exact ⟨acc, h.level, h.requesting, h.start, h.last, h.count, h.proper, h.apart, hold,
      h.reached⟩
  · obtain ⟨hlo, hdis⟩ := hd.resolve_left (not_le.mpr hgt)
    have hlast : (w.counted d.pts d.count).last = top p₀ (acc ++ [d.range]) := by
      rw [top_append_singleton, ← h.last]
      rfl
    have hcount : (w.counted d.pts d.count).count = p₀ + total (acc ++ [d.range]) := by
      have hlen : total [d.range] = d.count := by simp [total, Delivery.range, Range.len]
      rw [total_append, hlen, ← Int.add_assoc, ← h.count]
      rfl
    have hproper : ∀ r ∈ acc ++ [d.range], r.lo ≤ r.hi ∧ p₀ ≤ r.lo := by
      intro r hr
      cases List.mem_append.mp hr with
      | inl hmem => exact h.proper r hmem
      | inr hmem =>
          rw [List.mem_singleton.mp hmem, Delivery.range]
          exact ⟨show d.pts - d.count ≤ d.pts by omega, hlo⟩
    have hapart : Apart (acc ++ [d.range]) := by
      rw [apart_append_singleton]
      refine ⟨h.apart, fun r hr => ?_⟩
      obtain ⟨e, he, rfl⟩ := h.received r hr
      exact hdis e he
    have hreceived : ∀ r ∈ acc ++ [d.range], ∃ e ∈ pre ++ [d], e.range = r := by
      intro r hr
      cases List.mem_append.mp hr with
      | inl hmem => exact hold r hmem
      | inr hmem => exact ⟨d, by simp, (List.mem_singleton.mp hmem).symm⟩
    refine ⟨acc ++ [d.range], ?_⟩
    obtain ⟨heq, hs⟩ | ⟨hne, hs⟩ := hnum
    · have hcov : covered (acc ++ [d.range]) = Finset.Ioc p₀ (w.counted d.pts d.count).last := by
        rw [hlast, covered_eq_Ioc_iff (fun r hr => (hproper r hr).1) hapart
          (fun r hr => (hproper r hr).2), ← hlast, heq, hcount]
      exact
        { level := hs.level h.level
          requesting := hs.requesting.trans h.requesting
          start := by
            rw [hs.good]
            exact le_of_le_of_eq (le_top p₀ (acc ++ [d.range])) hlast.symm
          last := hs.last.trans hlast
          count := hs.count.trans hcount
          proper := hproper
          apart := hapart
          received := hreceived
          reached := by
            rw [hs.good]
            exact hcov.superset }
    · exact
        { level := hs.level h.level
          requesting := hs.requesting.trans h.requesting
          start := le_of_le_of_eq h.start hs.good.symm
          last := hs.last.trans hlast
          count := hs.count.trans hcount
          proper := hproper
          apart := hapart
          received := hreceived
          reached := by
            rw [hs.good]
            intro x hx
            obtain ⟨r, hr, hxr⟩ := mem_covered.mp (h.reached hx)
            exact mem_covered.mpr ⟨r, List.mem_append_left _ hr, hxr⟩ }

/-! ## Whole runs -/

theorem receiveAll_append (pre : List (Delivery Update Updates)) (d : Delivery Update Updates) :
    w.receiveAll channel (pre ++ [d]) = (w.receiveAll channel pre).receive channel d := by
  rw [receiveAll, List.foldl_append]
  rfl

/-- Nothing moves while a difference is requested. -/
theorem receiveAll_requesting (hr : w.requesting = true) (ds : List (Delivery Update Updates)) :
    SameNumbers w (w.receiveAll channel ds) := by
  induction ds using List.reverseRecOn with
  | nil => exact ⟨rfl, rfl, rfl, rfl, id⟩
  | append_singleton ds d ih =>
      rw [receiveAll_append channel]
      have hd := receive_requesting channel (ih.requesting.trans hr) d
      exact ⟨hd.good.trans ih.good, hd.last.trans ih.last, hd.count.trans ih.count,
        hd.requesting.trans ih.requesting, fun hl => hd.level (ih.level hl)⟩

theorem receiveAll_counts (hr : w.requesting = false) (h0 : 0 < p₀)
    {ds : List (Delivery Update Updates)} (hds : CountedOnce channel w p₀ ds)
    (hpre : pre <+: ds) :
    ∃ acc, Counts p₀ ((w.init p₀).receiveAll channel pre) pre acc := by
  induction pre using List.reverseRecOn with
  | nil => exact ⟨[], counts_init hr⟩
  | append_singleton pre d ih =>
      obtain ⟨acc, hacc⟩ := ih ((List.prefix_append pre [d]).trans hpre)
      rw [receiveAll_append channel]
      exact hacc.receive channel h0 d (hds pre d hpre)

/-- **No `pts` is skipped while none is counted twice.** -/
theorem never_skips_pts (w : PtsWaiter Channel Update Updates) (p₀ : Int) (h0 : 0 < p₀)
    (ds : List (Delivery Update Updates)) (hds : CountedOnce channel w p₀ ds) :
    NeverSkips channel w p₀ ds := by
  intro pre hpre x hlt hle
  cases hr : w.requesting with
  | true =>
      have hsame := receiveAll_requesting channel (show (w.init p₀).requesting = true from hr) pre
      rw [current, hsame.good] at hle
      exact absurd (lt_of_lt_of_le hlt hle) (lt_irrefl p₀)
  | false =>
      obtain ⟨acc, hacc⟩ := receiveAll_counts channel hr h0 hds hpre
      have hin : x ∈ Finset.Ioc p₀ ((w.init p₀).receiveAll channel pre).good :=
        Finset.mem_Ioc.mpr ⟨hlt, hle⟩
      obtain ⟨r, hrr, hxr⟩ := mem_covered.mp (hacc.reached hin)
      obtain ⟨d, hd, rfl⟩ := hacc.received r hrr
      exact ⟨d, hd, hxr⟩

/-- `12` comes twice while `11` is missing: the second copy is counted as `11`. -/
theorem redelivery_skips_pts :
    ¬ NeverSkips () ({} : PtsWaiter Unit Nat Nat) 10
      [⟨some (.update 12), 12, 1, by decide⟩, ⟨some (.update 12), 12, 1, by decide⟩] := by
  intro h
  obtain ⟨d, hd, hrange⟩ := h _ List.prefix_rfl 11 (by decide) (by decide)
  have h12 : d.range = ⟨11, 12⟩ := by
    simp only [List.mem_cons, List.not_mem_nil, or_false, or_self] at hd
    rw [hd]
    rfl
  rw [h12] at hrange
  exact absurd hrange (by decide)

/-- The same deliveries in order, the second one dropped as confirmed. -/
theorem never_skips_pts_redelivered :
    NeverSkips () ({} : PtsWaiter Unit Nat Nat) 10
      [⟨some (.update 11), 11, 1, by decide⟩, ⟨some (.update 11), 11, 1, by decide⟩] := by
  refine never_skips_pts () {} 10 (by decide) _ fun pre d hpre => ?_
  match pre, hpre with
  | [], hpre =>
      obtain rfl : d = _ := by simpa using hpre
      exact .inr ⟨by decide, nofun⟩
  | [e], hpre =>
      obtain ⟨rfl, rfl⟩ : e = _ ∧ d = _ := by simpa using hpre
      exact .inl (by decide)
  | _ :: _ :: _, hpre => simp at hpre

end PtsWaiter

end MessengerClient
