import Mathlib.Data.List.Induction
import Mathlib.Order.Lattice
import MessengerClient.PtsWaiter.Queues
import MessengerClient.PtsWaiter.Step

/-!
# MessengerClient.PtsWaiter.Gap

What happens while a `pts` is missing, over every run of the calls that
`Api::Updates` and `ChannelData` make on a waiter.  `check` arms the wait for a
gap and then answers `!count`, so a zero-count call is treated as one that closed
the gap: `updateAndApply` flushes the queue and drops the flag that `check` has
just set.  `run_gapClosed_iff` says exactly which calls keep the gap closed.
-/

namespace MessengerClient

namespace PtsWaiter

variable {Channel Update Updates : Type}

/-- The calls made on a waiter. -/
inductive Call (Update Updates : Type) where
  | init (pts : Int)
  | setRequesting (isRequesting : Bool)
  | setWaitingForShortPoll (ms : Int)
  | updateAndApply (payload : Option (Payload Update Updates)) (pts : Int) (count : Nat)

/-! ## What holds in every reachable state -/

/-- Facts about the queue that no call breaks. -/
structure Calm (w : PtsWaiter Channel Update Updates) : Prop where
  level : w.applySkippedLevel = 0
  stored : w.Stored
  waits : w.queue.entries ≠ [] → w.waitingForSkipped = true
  requesting : w.requesting = true → w.queue.entries = []
  inited : w.inited = false → w.queue.entries = []
  good_le : w.good ≤ w.last

namespace Calm

variable {w : PtsWaiter Channel Update Updates}

theorem of_empty (hl : w.applySkippedLevel = 0) (hq : w.queue = ∅) (hg : w.good ≤ w.last) :
    w.Calm :=
  ⟨hl, Stored.of_empty hq, fun h => absurd (by rw [hq]; rfl) h, fun _ => by rw [hq]; rfl,
    fun _ => by rw [hq]; rfl, hg⟩

/-- `check` found the two numbers equal. -/
theorem closed (h : w.Calm) (pts count : Int) :
    (w.closed pts count).Calm := by
  refine ⟨h.level, ⟨h.stored.update, h.stored.updates⟩, h.waits, h.requesting, fun hi => ?_,
    le_refl _⟩
  have hle : w.good ≤ max w.last pts := le_trans h.good_le (le_max_left _ _)
  exact h.inited (decide_eq_false fun hpos => of_decide_eq_false hi (lt_of_lt_of_le hpos hle))

/-- `check` found them different and armed the wait. -/
theorem armed (h : w.Calm) (pts count : Int)
    (calls : List (OwnerCall Channel Update Updates)) : (w.armed pts count calls).Calm :=
  ⟨h.level, ⟨h.stored.update, h.stored.updates⟩, fun _ => rfl, h.requesting, h.inited,
    le_trans h.good_le (le_max_left _ _)⟩

theorem push (h : w.Calm) (hr : w.requesting = false) (hi : w.inited = true)
    (hw : w.waitingForSkipped = true) (pts : Int) (p : Payload Update Updates) :
    (w.push pts p).Calm := by
  refine ⟨?_, h.stored.push pts p, fun _ => ?_, fun hr' => ?_, fun hi' => ?_, ?_⟩
  · rw [push_frame]; exact h.level
  · rw [push_frame]; exact hw
  · rw [push_frame] at hr'; exact absurd hr' (by simp [hr])
  · rw [push_frame] at hi'; exact absurd hi' (by simpa [PtsWaiter.inited] using hi)
  · rw [push_frame]; exact h.good_le

end Calm

variable [Inhabited Update] [Inhabited Updates] (channel : Channel)

def act (w : PtsWaiter Channel Update Updates) :
    Call Update Updates → PtsWaiter Channel Update Updates
  | .init pts => w.init pts
  | .setRequesting isRequesting => w.setRequesting isRequesting
  | .setWaitingForShortPoll ms => w.setWaitingForShortPoll channel ms
  | .updateAndApply none pts count => (w.updateAndApply channel pts count).1
  | .updateAndApply (some p) pts count => (w.updateAndApplyWith channel pts count p).1

/-- A new waiter after the calls `cs`. -/
def run (cs : List (Call Update Updates)) : PtsWaiter Channel Update Updates :=
  cs.foldl (act channel) {}

/-! ## The property and the exact condition -/

/-- From `w` to `w'` a waiting payload is handed over only if no gap is left. -/
def HandsOverClosed (w w' : PtsWaiter Channel Update Updates) : Prop :=
  ∀ out, handed w'.owner = handed w.owner ++ out → (∃ q ∈ w.queued, q ∈ out) → w'.last = w'.count

/-- While a gap remains, the waiter waits. -/
def GapWaits (w : PtsWaiter Channel Update Updates) : Prop :=
  w.count < w.last → w.waitingForSkipped = true

/-- Every call of a run keeps the gap closed to the waiting payloads. -/
def GapClosed (cs : List (Call Update Updates)) : Prop :=
  ∀ pre c, pre ++ [c] <+: cs →
    HandsOverClosed (run channel pre) (act channel (run channel pre) c) ∧
      GapWaits (act channel (run channel pre) c)

/-- The calls that leave a gap as it is: not a zero-count call that leaves the two
numbers different while something waits or, without a payload, while `pts` are
missing; and not a call without a payload during a difference request. -/
def LeavesGap (w : PtsWaiter Channel Update Updates) : Call Update Updates → Prop
  | .updateAndApply payload pts count =>
      ¬ (w.requesting = false ∧ w.inited = true ∧ count = 0 ∧ max w.last pts ≠ w.count ∧
          (w.queue.entries ≠ [] ∨ (payload = none ∧ w.count < max w.last pts))) ∧
        ¬ (w.requesting = true ∧ payload = none ∧ w.count < w.last)
  | _ => True

/-! ## What is handed over -/

/-- An unchanged owner hands over nothing. -/
theorem HandsOverClosed.of_silent {w w' : PtsWaiter Channel Update Updates}
    (h : handed w'.owner = handed w.owner) : HandsOverClosed w w' := by
  rintro out hout ⟨q, -, hq⟩
  rw [h, List.self_eq_append_right] at hout
  simp [hout] at hq

theorem HandsOverClosed.of_empty {w w' : PtsWaiter Channel Update Updates}
    (h : w.queue.entries = []) : HandsOverClosed w w' := by
  rintro out - ⟨q, hq, -⟩
  simp [queued, h] at hq

/-- Handing over everything that waits is allowed exactly when no gap is left. -/
theorem handsOverClosed_iff_of_all {w w' : PtsWaiter Channel Update Updates}
    (hq : w.queue.entries ≠ []) {out : List (Payload Update Updates)}
    (h : handed w'.owner = handed w.owner ++ out) (hsub : w.queued ⊆ out) :
    HandsOverClosed w w' ↔ w'.last = w'.count := by
  constructor
  · intro hc
    obtain ⟨e, es, he⟩ := List.exists_cons_of_ne_nil hq
    have hmem : w.fetch e ∈ w.queued := by simp [queued, he]
    exact hc out h ⟨_, hmem, hsub hmem⟩
  · exact fun heq _ _ _ => heq

/-! ## The two ends of a call -/

variable {w : PtsWaiter Channel Update Updates}

/-- A payload goes out alone if nothing waits, else all that waits goes with it. -/
theorem Calm.handOver (h : w.Calm) (pts : Int) (p : Payload Update Updates) :
    (w.handOver channel pts p).Calm ∧
    (w.handOver channel pts p).last = w.last ∧ (w.handOver channel pts p).count = w.count ∧
    (w.queue.entries = [] ∧
      (w.handOver channel pts p).waitingForSkipped = w.waitingForSkipped ∨
     w.queue.entries ≠ [] ∧ (w.handOver channel pts p).waitingForSkipped = false ∧
      ∃ out, handed (w.handOver channel pts p).owner = handed w.owner ++ out ∧
        w.queued ⊆ out) := by
  obtain ⟨hidle, hover⟩ | ⟨hw, hq, calls, hcalls, hover⟩ := handOver_cases w channel pts p
  · have hq : w.queue.entries = [] := by
      by_contra hne
      exact hidle.elim (fun hw => by simp [h.waits hne] at hw) hne
    rw [hover]
    exact ⟨⟨h.level, ⟨h.stored.update, h.stored.updates⟩, h.waits, h.requesting, h.inited,
        h.good_le⟩, rfl, rfl, .inl ⟨hq, rfl⟩⟩
  · rw [hover]
    exact ⟨Calm.of_empty rfl rfl h.good_le, rfl, rfl,
      .inr ⟨hq, rfl, _, hcalls, queued_subset_push h.stored pts p⟩⟩

/-- Without a payload: all that waits goes out, and the flag is dropped anyway. -/
theorem Calm.applySkippedUpdates (h : w.Calm) :
    (w.applySkippedUpdates channel).Calm ∧
    (w.applySkippedUpdates channel).waitingForSkipped = false ∧
    (w.applySkippedUpdates channel).last = w.last ∧
    (w.applySkippedUpdates channel).count = w.count ∧
    (w.queue.entries = [] ∧ handed (w.applySkippedUpdates channel).owner = handed w.owner ∨
     w.queue.entries ≠ [] ∧
      handed (w.applySkippedUpdates channel).owner = handed w.owner ++ w.queued) := by
  by_cases hq : w.queue.entries = []
  · obtain ⟨calls, hcalls, happ⟩ := applySkippedUpdates_empty channel hq
    rw [happ]
    exact ⟨Calm.of_empty h.level (FlatMap.entries_eq_nil_iff.mp hq) h.good_le, rfl, rfl, rfl,
      .inl ⟨hq, hcalls⟩⟩
  · obtain ⟨calls, hcalls, happ⟩ := applySkippedUpdates_flush channel (h.waits hq) hq
    rw [happ]
    exact ⟨Calm.of_empty rfl rfl h.good_le, rfl, rfl, rfl, .inr ⟨hq, hcalls⟩⟩

/-! ## One call -/

/-- A call with a payload. -/
theorem updateAndApplyWith_gap (h : w.Calm) (hg : w.GapWaits) (pts : Int) (count : Nat)
    (p : Payload Update Updates) :
    (w.updateAndApplyWith channel pts count p).1.Calm ∧
    (HandsOverClosed w (w.updateAndApplyWith channel pts count p).1 ∧
        GapWaits (w.updateAndApplyWith channel pts count p).1 ↔
      w.LeavesGap (.updateAndApply (some p) pts count)) := by
  obtain ⟨hr, hup⟩ | ⟨hr, -, hc, hup⟩ | ⟨hr, -, hi, hup⟩ | ⟨hr, -, hi, heq, hup⟩ |
      ⟨hr, -, hi, hne, calls, hcalls, hup⟩ :=
    updateAndApplyWith_cases w channel pts count p h.level
  · rw [hup]
    obtain ⟨hcalm, hl, hc, ⟨hq, hwait⟩ | ⟨hq, -⟩⟩ := h.handOver channel pts p
    · refine ⟨hcalm, iff_of_true ⟨HandsOverClosed.of_empty hq, ?_⟩ (by simp [LeavesGap, hr])⟩
      rwa [GapWaits, hl, hc, hwait]
    · exact absurd (h.requesting hr) hq
  · rw [hup]
    refine ⟨h, iff_of_true ⟨HandsOverClosed.of_silent rfl, hg⟩ ⟨?_, by simp [hr]⟩⟩
    rintro ⟨-, -, h0, -⟩
    omega
  · rw [hup]
    have hinit : (w.init pts).Calm := Calm.of_empty rfl rfl (le_refl _)
    obtain ⟨hcalm, hl, hc, -⟩ := hinit.handOver channel pts p
    refine ⟨hcalm, iff_of_true ⟨HandsOverClosed.of_empty (h.inited hi), ?_⟩
      (by simp [LeavesGap, hr, hi])⟩
    rw [GapWaits, hl, hc]
    exact fun hlt => absurd hlt (lt_irrefl pts)
  · rw [hup]
    obtain ⟨hcalm, hl, hc, -⟩ := (h.closed pts count).handOver channel pts p
    have hclosed := hl.trans (heq.trans hc.symm)
    refine ⟨hcalm, iff_of_true ⟨fun _ _ _ => hclosed, fun hlt => absurd hclosed hlt.ne'⟩
      ⟨?_, by simp [hr]⟩⟩
    rintro ⟨-, -, h0, hmax, -⟩
    simp only [counted] at heq
    omega
  · rw [hup]
    have harmed := h.armed pts count calls
    split
    · next h0 =>
      have hmax : max w.last pts ≠ w.count := by simpa [counted, h0] using hne
      have h0' : count = 0 := by exact_mod_cast h0
      obtain ⟨hcalm, hl, hc, ⟨hq, hwait⟩ | ⟨hq, -, out, hout, hsub⟩⟩ :=
        harmed.handOver channel pts p
      · refine ⟨hcalm, iff_of_true ⟨HandsOverClosed.of_empty hq, fun _ => hwait⟩ ?_⟩
        exact ⟨by rintro ⟨-, -, -, -, hbad | ⟨hbad, -⟩⟩ <;> simp_all [PtsWaiter.armed, counted], by simp [hr]⟩
      · refine ⟨hcalm, iff_of_false ?_ ?_⟩
        · rintro ⟨hover, -⟩
          rw [show (w.armed pts count calls).owner = calls from rfl, hcalls] at hout
          have hq' : w.queue.entries ≠ [] := hq
          have heq := (handsOverClosed_iff_of_all hq' hout hsub).mp hover
          exact hne (hl.symm.trans (heq.trans hc))
        · exact fun hleaves => hleaves.1 ⟨hr, hi, h0', hmax, .inl hq⟩
    · next h0 =>
      have hh : handed ((w.armed pts count calls).push pts p).owner = handed w.owner := by
        rw [push_frame]; exact hcalls
      refine ⟨harmed.push hr hi rfl pts p, iff_of_true ⟨HandsOverClosed.of_silent hh, ?_⟩ ?_⟩
      · intro; rw [push_frame]; rfl
      · exact ⟨by rintro ⟨-, -, hz, -⟩; exact h0 (by exact_mod_cast hz), by simp [hr]⟩

/-- A call without a payload. -/
theorem updateAndApply_gap (h : w.Calm) (hg : w.GapWaits) (pts : Int) (count : Nat) :
    (w.updateAndApply channel pts count).1.Calm ∧
    (HandsOverClosed w (w.updateAndApply channel pts count).1 ∧
        GapWaits (w.updateAndApply channel pts count).1 ↔
      w.LeavesGap (.updateAndApply none pts count)) := by
  obtain ⟨hr, hup⟩ | ⟨hr, -, hc, hup⟩ | ⟨hr, -, hi, hup⟩ | ⟨hr, -, hi, heq, hup⟩ |
      ⟨hr, -, hi, hne, calls, hcalls, hup⟩ :=
    updateAndApply_cases w channel pts count h.level
  · rw [hup]
    obtain ⟨hcalm, hwait, hl, hc, -⟩ := h.applySkippedUpdates channel
    refine ⟨hcalm, ?_⟩
    have hover : HandsOverClosed w (w.applySkippedUpdates channel) :=
      HandsOverClosed.of_empty (h.requesting hr)
    simp [hover, GapWaits, hwait, hl, hc, LeavesGap, hr]
  · rw [hup]
    refine ⟨h, iff_of_true ⟨HandsOverClosed.of_silent rfl, hg⟩ ⟨?_, by simp [hr]⟩⟩
    rintro ⟨-, -, h0, -⟩
    omega
  · rw [hup]
    have hinit : (w.init pts).Calm := Calm.of_empty rfl rfl (le_refl _)
    obtain ⟨hcalm, -, hl, hc, -⟩ := hinit.applySkippedUpdates channel
    refine ⟨hcalm, iff_of_true ⟨HandsOverClosed.of_empty (h.inited hi), ?_⟩
      (by simp [LeavesGap, hr, hi])⟩
    rw [GapWaits, hl, hc]
    exact fun hlt => absurd hlt (lt_irrefl pts)
  · rw [hup]
    obtain ⟨hcalm, -, hl, hc, -⟩ := (h.closed pts count).applySkippedUpdates channel
    have hclosed := hl.trans (heq.trans hc.symm)
    refine ⟨hcalm, iff_of_true ⟨fun _ _ _ => hclosed, fun hlt => absurd hclosed hlt.ne'⟩
      ⟨?_, by simp [hr]⟩⟩
    rintro ⟨-, -, h0, hmax, -⟩
    simp only [counted] at heq
    omega
  · rw [hup]
    have harmed := h.armed pts count calls
    split
    · next h0 =>
      have hmax : max w.last pts ≠ w.count := by simpa [counted, h0] using hne
      have hcount : (w.armed pts count calls).count = w.count := by simp [armed, counted, h0]
      have h0' : count = 0 := by exact_mod_cast h0
      obtain ⟨hcalm, hwait, hl, hc, ⟨hq, hout⟩ | ⟨hq, hout⟩⟩ :=
        harmed.applySkippedUpdates channel
      · have hover : HandsOverClosed w ((w.armed pts count calls).applySkippedUpdates channel) :=
          HandsOverClosed.of_empty hq
        have hq' : w.queue.entries = [] := hq
        have hlast : (w.armed pts count calls).last = max w.last pts := rfl
        refine ⟨hcalm, (and_iff_right hover).trans ?_⟩
        rw [GapWaits, hwait, hl, hc, hcount, hlast]
        simp [LeavesGap, hr, hi, h0', hmax, hq']
      · refine ⟨hcalm, iff_of_false ?_ ?_⟩
        · rintro ⟨hover, -⟩
          rw [show (w.armed pts count calls).owner = calls from rfl, hcalls] at hout
          have hq' : w.queue.entries ≠ [] := hq
          have heq := (handsOverClosed_iff_of_all hq' hout (List.Subset.refl w.queued)).mp hover
          exact hne (hl.symm.trans (heq.trans hc))
        · exact fun hleaves => hleaves.1 ⟨hr, hi, h0', hmax, .inl hq⟩
    · next h0 =>
      refine ⟨harmed, iff_of_true ⟨HandsOverClosed.of_silent hcalls, fun _ => rfl⟩ ?_⟩
      exact ⟨by rintro ⟨-, -, hz, -⟩; exact h0 (by exact_mod_cast hz), by simp [hr]⟩

/-- **Every call**: in a reachable state where the gap waits, it keeps waiting, and
its payloads stay, exactly under `LeavesGap`. -/
theorem act_gap (h : w.Calm) (hg : w.GapWaits) (c : Call Update Updates) :
    (act channel w c).Calm ∧
    (HandsOverClosed w (act channel w c) ∧ GapWaits (act channel w c) ↔ w.LeavesGap c) := by
  cases c with
  | init pts =>
      refine ⟨Calm.of_empty rfl rfl (le_refl _), iff_of_true ⟨HandsOverClosed.of_silent rfl, ?_⟩
        trivial⟩
      exact fun hlt => absurd hlt (lt_irrefl pts)
  | setRequesting isRequesting =>
      cases isRequesting with
      | true => exact ⟨Calm.of_empty rfl rfl h.good_le,
          iff_of_true ⟨HandsOverClosed.of_silent rfl, hg⟩ trivial⟩
      | false => exact ⟨⟨h.level, ⟨h.stored.update, h.stored.updates⟩, h.waits, nofun, h.inited,
          h.good_le⟩, iff_of_true ⟨HandsOverClosed.of_silent rfl, hg⟩ trivial⟩
  | setWaitingForShortPoll ms =>
      obtain ⟨calls, b, hcalls, hset⟩ := setWaitingForShortPoll_frame w channel ms
      rw [act, hset]
      exact ⟨⟨h.level, ⟨h.stored.update, h.stored.updates⟩, h.waits, h.requesting, h.inited,
        h.good_le⟩, iff_of_true ⟨HandsOverClosed.of_silent hcalls, hg⟩ trivial⟩
  | updateAndApply payload pts count =>
      cases payload with
      | none => exact updateAndApply_gap channel h hg pts count
      | some p => exact updateAndApplyWith_gap channel h hg pts count p

/-! ## Whole runs -/

theorem run_append (pre : List (Call Update Updates)) (c : Call Update Updates) :
    run channel (pre ++ [c]) = act channel (run channel pre) c := by
  rw [run, List.foldl_append]
  rfl

/-- Along a run in which every call keeps the wait for a gap, by itself or by
`LeavesGap`, every state is calm and waits for its gap. -/
theorem run_calm {cs : List (Call Update Updates)}
    (h : ∀ pre c, pre ++ [c] <+: cs →
      (run channel (pre ++ [c])).GapWaits ∨ (run channel pre).LeavesGap c)
    {pre : List (Call Update Updates)} (hpre : pre <+: cs) :
    (run channel pre).Calm ∧ (run channel pre).GapWaits := by
  induction pre using List.reverseRecOn with
  | nil => exact ⟨Calm.of_empty rfl rfl (le_refl 0), fun hlt => absurd hlt (lt_irrefl 0)⟩
  | append_singleton pre c ih =>
      obtain ⟨hcalm, hwaits⟩ := ih ((List.prefix_append pre [c]).trans hpre)
      obtain ⟨hcalm', hiff⟩ := act_gap channel hcalm hwaits c
      have hstep := h pre c hpre
      rw [run_append] at hstep ⊢
      exact ⟨hcalm', hstep.elim id fun hleaves => (hiff.mpr hleaves).2⟩

/-- **The gap stays closed exactly under `LeavesGap`**: along a run of any calls on
a new waiter, waiting payloads are handed over only by a call that leaves no gap
and the waiter waits while there is one, if and only if no zero-count call meets
an open gap (as `LeavesGap` says it). -/
theorem run_gapClosed_iff (cs : List (Call Update Updates)) :
    GapClosed channel cs ↔ ∀ pre c, pre ++ [c] <+: cs → (run channel pre).LeavesGap c := by
  constructor
  · intro h pre c hpre
    obtain ⟨hcalm, hwaits⟩ := run_calm channel
      (fun pre' c' hpre' => .inl (run_append channel pre' c' ▸ (h pre' c' hpre').2))
      ((List.prefix_append pre [c]).trans hpre)
    exact (act_gap channel hcalm hwaits c).2.mp (h pre c hpre)
  · intro h pre c hpre
    obtain ⟨hcalm, hwaits⟩ := run_calm channel (fun pre' c' hpre' => .inr (h pre' c' hpre'))
      ((List.prefix_append pre [c]).trans hpre)
    exact (act_gap channel hcalm hwaits c).2.mpr (h pre c hpre)

/-- `11` is missing and the update for `12` waits; a zero-count call for `12`, as a
page of messages makes it, hands the update over with the gap still open. -/
theorem ptsReceived_opens_gap :
    ¬ GapClosed () [.init 10, .updateAndApply (some (.update 12)) 12 1,
      (.updateAndApply none 12 0 : Call Nat Nat)] := by
  intro h
  have hgap := (h [.init 10, .updateAndApply (some (.update 12)) 12 1] _ List.prefix_rfl).1
  exact absurd (hgap [.update 12] (by decide) ⟨.update 12, by decide, by decide⟩) (by decide)

end PtsWaiter

end MessengerClient
