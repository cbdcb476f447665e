import Mathlib.Data.List.Induction
import MessengerClient.Lib.Coverage
import MessengerClient.Updates

/-!
# MessengerClient.Updates.Seq

Packs numbered by `seq`, delivered in any order and possibly more than once.  A
pack is fed when everything before it has been fed; `InSeq` says that the fed
packs cut `(s₀, updatesSeq]` into pieces and that `bySeqUpdates` holds exactly the
delivered packs that are still ahead.  `apply_next` is the heart: feeding the next
pack and draining the map is an induction on the number of parked packs.
-/

namespace MessengerClient

variable {Update User Chat Message : Type}

namespace MTPUpdates

/-- The two constructors numbered by `seq`. -/
def isPack : MTPUpdates Update User Chat Message → Bool
  | .updates _ _ _ _ _ => true
  | .updatesCombined _ _ _ _ _ _ => true
  | _ => false

/-- The first `seq` of a pack. -/
def seqStart : MTPUpdates Update User Chat Message → Int
  | .updates _ _ _ _ seq => seq
  | .updatesCombined _ _ _ _ seqStart _ => seqStart
  | _ => 0

/-- The last `seq` of a pack. -/
def seq : MTPUpdates Update User Chat Message → Int
  | .updates _ _ _ _ seq => seq
  | .updatesCombined _ _ _ _ _ seq => seq
  | _ => 0

/-- The updates of a pack. -/
def vupdates : MTPUpdates Update User Chat Message → List Update
  | .updates us _ _ _ _ => us
  | .updatesCombined us _ _ _ _ _ => us
  | _ => []

/-- `[seq_start, seq]`, as a half-open range. -/
def seqRange (p : MTPUpdates Update User Chat Message) : Range := ⟨p.seqStart - 1, p.seq⟩

end MTPUpdates

namespace Updates

/-- The vectors fed, in order. -/
def fedVectors (calls : List (DataCall Update User Chat Message)) : List (List Update) :=
  calls.filterMap fun
    | .feedUpdateVector updates => some updates
    | _ => none

theorem fedVectors_append (xs ys : List (DataCall Update User Chat Message)) :
    fedVectors (xs ++ ys) = fedVectors xs ++ fedVectors ys := List.filterMap_append ..

/-! ## The invariant -/

variable {s₀ sN : Int} {before : List (List Update)}
variable {ps pre out : List (MTPUpdates Update User Chat Message)}
variable {st : Updates Update User Chat Message} {p v : MTPUpdates Update User Chat Message}

/-- The packs that are delivered, each numbered and with its range in the tiling. -/
structure Numbered (s₀ sN : Int) (ps : List (MTPUpdates Update User Chat Message)) : Prop where
  start : 0 < s₀
  pack : ∀ p ∈ ps, p.isPack = true
  tiles : Tiles (ps.map MTPUpdates.seqRange) s₀ sN

/-- Of the deliveries `pre` the packs `out` were fed, and they cut `(s₀, updatesSeq]`. -/
structure FedUpTo (s₀ : Int) (before : List (List Update)) (st : Updates Update User Chat Message)
    (pre out : List (MTPUpdates Update User Chat Message)) : Prop where
  fed : fedVectors st.data = before ++ out.map MTPUpdates.vupdates
  subset : out ⊆ pre
  sorted : out.Pairwise (fun x y => x.seq < y.seq)
  start : s₀ ≤ st.updatesSeq
  reached : covered (out.map MTPUpdates.seqRange) = Finset.Ioc s₀ st.updatesSeq

/-- The map holds the delivered packs that start above `s`. -/
def ParkedAbove (st : Updates Update User Chat Message)
    (pre : List (MTPUpdates Update User Chat Message)) (s : Int) : Prop :=
  ∀ k p, st.bySeqUpdates.find? k = some p ↔ p ∈ pre ∧ p.seqStart = k ∧ s < k

/-- Nothing that could be fed waits. -/
structure InSeq (s₀ : Int) (before : List (List Update)) (st : Updates Update User Chat Message)
    (pre out : List (MTPUpdates Update User Chat Message)) : Prop
    extends FedUpTo s₀ before st pre out where
  caughtUp : ∀ p ∈ pre, p.seqStart ≤ st.updatesSeq + 1 → p ∈ out
  parked : ParkedAbove st pre (st.updatesSeq + 1)

/-- The state in which the drain starts, after a pack was fed. -/
structure FedPack (st : Updates Update User Chat Message)
    (p : MTPUpdates Update User Chat Message) (st' : Updates Update User Chat Message) : Prop where
  seq : st'.updatesSeq = p.seq
  parked : st'.bySeqUpdates = st.bySeqUpdates
  fed : fedVectors st'.data = fedVectors st.data ++ [p.vupdates]

/-! ## Facts about a tiling -/

theorem Numbered.bounds (h : Numbered s₀ sN ps) (hp : p ∈ ps) :
    s₀ < p.seqStart ∧ p.seqStart ≤ p.seq ∧ p.seq ≤ sN := by
  have hmem := List.mem_map_of_mem (f := MTPUpdates.seqRange) hp
  have hproper := h.tiles.proper _ hmem
  have hbounds := h.tiles.bounds hmem
  simp only [MTPUpdates.seqRange] at hproper hbounds
  omega

/-- Two packs are equal, or one ends before the other starts. -/
theorem Numbered.eq_or_lt (h : Numbered s₀ sN ps) (hp : p ∈ ps) (hv : v ∈ ps) :
    p = v ∨ p.seq < v.seqStart ∨ v.seq < p.seqStart := by
  by_contra hc
  simp only [not_or, not_lt] at hc
  obtain ⟨hne, hle, hge⟩ := hc
  have hbp := h.bounds hp
  have hbv := h.bounds hv
  have hinp : max p.seqStart v.seqStart ∈ p.seqRange.span := by
    simp only [MTPUpdates.seqRange, Range.mem_span]
    omega
  have hinv : max p.seqStart v.seqStart ∈ v.seqRange.span := by
    simp only [MTPUpdates.seqRange, Range.mem_span]
    omega
  exact hne (h.tiles.apart.eq_of_mem hp hv hinp hinv)

theorem Numbered.nodup (h : Numbered s₀ sN ps) : ps.Nodup := by
  refine (List.pairwise_map.mp h.tiles.apart).imp_of_mem fun {x y} hx _ hdis heq => ?_
  have hb := h.bounds hx
  have hself : x.seq ∈ x.seqRange.span := by
    simp only [MTPUpdates.seqRange, Range.mem_span]
    omega
  exact Finset.disjoint_left.mp hdis hself (heq ▸ hself)

/-- A fed pack ends at or below the current number. -/
theorem seq_le_of_reached (h : Numbered s₀ sN ps) (hout : out ⊆ ps) {s : Int}
    (hr : covered (out.map MTPUpdates.seqRange) = Finset.Ioc s₀ s) (hp : p ∈ out) :
    p.seq ≤ s := by
  have hb := h.bounds (hout hp)
  have hin : p.seq ∈ covered (out.map MTPUpdates.seqRange) := by
    refine mem_covered.mpr ⟨p.seqRange, List.mem_map_of_mem hp, ?_⟩
    simp only [MTPUpdates.seqRange, Range.mem_span]
    omega
  rw [hr, Finset.mem_Ioc] at hin
  exact hin.2

/-- A pack that starts at or below the current number was fed. -/
theorem mem_of_reached (h : Numbered s₀ sN ps) (hout : out ⊆ ps) {s : Int}
    (hr : covered (out.map MTPUpdates.seqRange) = Finset.Ioc s₀ s) (hp : p ∈ ps)
    (hle : p.seqStart ≤ s) : p ∈ out := by
  have hb := h.bounds hp
  have hin : p.seqStart ∈ covered (out.map MTPUpdates.seqRange) := by
    rw [hr, Finset.mem_Ioc]
    omega
  obtain ⟨r, hr', hpr⟩ := mem_covered.mp hin
  obtain ⟨q, hq, rfl⟩ := List.mem_map.mp hr'
  have hself : p.seqStart ∈ p.seqRange.span := by
    simp only [MTPUpdates.seqRange, Range.mem_span]
    omega
  exact h.tiles.apart.eq_of_mem hp (hout hq) hself hpr ▸ hq

/-- Feeding the next pack extends what was fed. -/
theorem FedUpTo.next {st' : Updates Update User Chat Message} (h : FedUpTo s₀ before st pre out)
    (hn : Numbered s₀ sN ps) (hpre : pre ⊆ ps) (hv : v ∈ pre)
    (hstart : v.seqStart = st.updatesSeq + 1) (hfed : FedPack st v st') :
    FedUpTo s₀ before st' pre (out ++ [v]) := by
  have hb := hn.bounds (hpre hv)
  constructor
  · rw [hfed.fed, h.fed, List.map_append, List.append_assoc]
    rfl
  · exact List.append_subset.mpr ⟨h.subset, by simpa using hv⟩
  · rw [List.pairwise_append]
    refine ⟨h.sorted, List.pairwise_singleton _ _, fun x hx y hy => ?_⟩
    have hxs := seq_le_of_reached hn (fun q hq => hpre (h.subset hq)) h.reached hx
    rw [List.mem_singleton.mp hy]
    omega
  · have hs := h.start
    rw [hfed.seq]
    omega
  · have hs := h.start
    have hlo : v.seqRange.lo = st.updatesSeq := by simp only [MTPUpdates.seqRange]; omega
    rw [List.map_append, List.map_singleton, hfed.seq]
    refine covered_append_next (hlo ▸ h.reached) (hlo ▸ hs) ?_
    simp only [MTPUpdates.seqRange]
    omega

/-- Between two packs that meet nothing can be parked. -/
theorem ParkedAbove.skip {st' : Updates Update User Chat Message} {s : Int}
    (h : ParkedAbove st pre s) (hn : Numbered s₀ sN ps) (hpre : pre ⊆ ps) (hv : v ∈ pre)
    (hstart : v.seqStart = s) (hsame : st'.bySeqUpdates = st.bySeqUpdates) :
    ParkedAbove st' pre v.seq := by
  have hb := hn.bounds (hpre hv)
  intro k p
  rw [hsame, h k p]
  constructor
  · rintro ⟨hp, hk, hlt⟩
    refine ⟨hp, hk, ?_⟩
    have hbp := hn.bounds (hpre hp)
    obtain rfl | hbelow | habove := hn.eq_or_lt (hpre hp) (hpre hv) <;> omega
  · rintro ⟨hp, hk, hlt⟩
    exact ⟨hp, hk, by omega⟩

/-- When the drain stops, nothing that waits could be fed. -/
theorem FedUpTo.settle (h : FedUpTo s₀ before st pre out)
    (hpark : ParkedAbove st pre st.updatesSeq)
    (hlate : ∀ p ∈ pre, p.seqStart ≤ st.updatesSeq → p ∈ out)
    (hgap : ∀ k p, st.bySeqUpdates.find? k = some p → st.updatesSeq + 1 < k) :
    InSeq s₀ before st pre out := by
  refine { h with caughtUp := fun p hp hle => ?_, parked := fun k p => ?_ }
  · refine hlate p hp (not_lt.mp fun hlt => ?_)
    have hk := hgap _ p ((hpark _ p).mpr ⟨hp, rfl, hlt⟩)
    omega
  · constructor
    · intro hfind
      obtain ⟨hp, hk, -⟩ := (hpark k p).mp hfind
      exact ⟨hp, hk, hgap k p hfind⟩
    · rintro ⟨hp, hk, hlt⟩
      exact (hpark k p).mpr ⟨hp, hk, by omega⟩

/-- The final notification feeds nothing. -/
theorem inSeq_pass (h : InSeq s₀ before st pre out) :
    InSeq s₀ before (st.pass .sendHistoryChangeNotifications) pre out :=
  { h with fed := by rw [pass, fedVectors_append, h.fed]; exact List.append_nil _ }

/-- A delivery at or below the bound is not among the parked ones. -/
theorem ParkedAbove.grow {s : Int} (h : ParkedAbove st pre s) (hle : p.seqStart ≤ s) :
    ParkedAbove st (pre ++ [p]) s := by
  intro k q
  rw [h k q]
  constructor
  · rintro ⟨hq, hk, hlt⟩
    exact ⟨List.mem_append_left _ hq, hk, hlt⟩
  · rintro ⟨hq, hk, hlt⟩
    refine ⟨(List.mem_append.mp hq).resolve_right fun hmem => ?_, hk, hlt⟩
    rw [List.mem_singleton.mp hmem] at hk
    omega

/-- Parking a pack, or a copy of a parked one. -/
theorem ParkedAbove.park {s : Int} (h : ParkedAbove st pre s) (hn : Numbered s₀ sN ps)
    (hpre : pre ++ [p] ⊆ ps) (hlt : s < p.seqStart) :
    ParkedAbove (st.park p.seqStart p) (pre ++ [p]) s := by
  have hsame : ∀ q ∈ pre ++ [p], q.seqStart = p.seqStart → q = p := by
    intro q hq heq
    have hbq := hn.bounds (hpre hq)
    have hbp := hn.bounds (hpre (List.mem_append_right pre (List.mem_singleton_self p)))
    obtain hqp | hbelow | habove := hn.eq_or_lt (hpre hq)
      (hpre (List.mem_append_right pre (List.mem_singleton_self p)))
    · exact hqp
    · omega
    · omega
  intro k q
  rw [Updates.park, FlatMap.find?_emplace]
  split
  · next heq =>
    subst heq
    have hvalue : (st.bySeqUpdates.find? p.seqStart).getD p = p := by
      cases hfind : st.bySeqUpdates.find? p.seqStart with
      | none => rfl
      | some u =>
          obtain ⟨hu, hus, -⟩ := (h _ u).mp hfind
          exact hsame u (List.mem_append_left _ hu) hus
    rw [hvalue, Option.some.injEq]
    constructor
    · rintro rfl
      exact ⟨by simp, rfl, hlt⟩
    · rintro ⟨hq, hqs, -⟩
      exact (hsame q hq hqs).symm
  · next hne =>
    rw [h k q]
    constructor
    · rintro ⟨hq, hk, hk'⟩
      exact ⟨List.mem_append_left _ hq, hk, hk'⟩
    · rintro ⟨hq, hk, hk'⟩
      refine ⟨(List.mem_append.mp hq).resolve_right fun hmem => ?_, hk, hk'⟩
      rw [List.mem_singleton.mp hmem] at hk
      exact hne hk.symm

/-- Once every pack was delivered, the last number is reached. -/
theorem InSeq.reached_end (h : InSeq s₀ before st pre out) (hn : Numbered s₀ sN ps)
    (hsub : out ⊆ ps) (hall : ps ⊆ pre) : st.updatesSeq = sN := by
  refine le_antisymm ?_ (not_lt.mp fun hlt => ?_)
  · rcases h.start.eq_or_lt with heq | hlt
    · exact heq ▸ hn.tiles.le
    · have hin : st.updatesSeq ∈ covered (out.map MTPUpdates.seqRange) := by
        rw [h.reached, Finset.mem_Ioc]
        omega
      obtain ⟨r, hr, hs⟩ := mem_covered.mp hin
      obtain ⟨q, hq, rfl⟩ := List.mem_map.mp hr
      exact (Range.mem_span.mp hs).2.trans (hn.bounds (hsub hq)).2.2
  · -- The pack of the next number was delivered, so it was fed, so it is not the next.
    have hs := h.start
    have hin : st.updatesSeq + 1 ∈ covered (ps.map MTPUpdates.seqRange) := by
      rw [hn.tiles.cover, Finset.mem_Ioc]
      omega
    obtain ⟨r, hr, hnext⟩ := mem_covered.mp hin
    obtain ⟨q, hq, rfl⟩ := List.mem_map.mp hr
    simp only [MTPUpdates.seqRange, Range.mem_span] at hnext
    have hfed := h.caughtUp q (hall hq) (by omega)
    have hle := seq_le_of_reached hn hsub h.reached hfed
    omega

variable (feed : Feed Update User Chat Message)

/-! ## What the functions do with packs -/

/-- The contents are fed and the numbers set. -/
def fedState (st : Updates Update User Chat Message) (updates : List Update)
    (users : List User) (chats : List Chat) (date seq : Int) :
    Updates Update User Chat Message :=
  let st' := st.feedPack feed updates users chats
  { st'.setNumbers 0 date st'.updatesQts with updatesSeq := seq, bySeqTimer := false }

theorem fedVectors_fedState (st : Updates Update User Chat Message) (updates : List Update)
    (users : List User) (chats : List Chat) (date seq : Int) :
    fedVectors (fedState feed st updates users chats date seq).data =
      fedVectors st.data ++ [updates] := by
  simp only [fedState, setNumbers_data, feedPack, feedUpdateVector, fed, pass, fedVectors_append]
  simp [fedVectors]

theorem fedState_fedPack (st : Updates Update User Chat Message)
    {p : MTPUpdates Update User Chat Message} (users : List User) (chats : List Chat)
    (date : Int) : FedPack st p (fedState feed st p.vupdates users chats date p.seq) :=
  ⟨rfl, by simp [fedState], fedVectors_fedState ..⟩

variable [Inhabited Update]

theorem applyUpdates_old {st : Updates Update User Chat Message}
    {p : MTPUpdates Update User Chat Message} (hp : p.isPack = true) (h0 : p.seqStart ≠ 0)
    (h : p.seqStart ≤ st.updatesSeq) (r : Nat) : applyUpdates feed st p r = st := by
  cases p <;> simp_all [MTPUpdates.isPack, MTPUpdates.seqStart, applyUpdates]

theorem applyUpdates_ahead {st : Updates Update User Chat Message}
    {p : MTPUpdates Update User Chat Message} (hp : p.isPack = true) (h0 : p.seqStart ≠ 0)
    (h : st.updatesSeq + 1 < p.seqStart) (r : Nat) :
    applyUpdates feed st p r = st.park p.seqStart p := by
  have hold : ¬ p.seqStart ≤ st.updatesSeq := by omega
  cases p <;> simp_all [MTPUpdates.isPack, MTPUpdates.seqStart, applyUpdates]

theorem setState_pack {st : Updates Update User Chat Message} {updates : List Update}
    {users : List User} {chats : List Chat} {date seq : Int}
    (hseq : seq ≠ 0 ∧ seq ≠ st.updatesSeq) :
    setState feed (st.feedPack feed updates users chats) 0 date
        (st.feedPack feed updates users chats).updatesQts seq =
      drainBySeq feed (fedState feed st updates users chats date seq) seq := by
  rw [setState]
  simp only [setNumbers_updatesSeq]
  exact if_pos hseq

/-- The next pack is fed, then the map is drained. -/
theorem applyUpdates_next {st : Updates Update User Chat Message}
    {p : MTPUpdates Update User Chat Message} (hp : p.isPack = true)
    (h : p.seqStart = st.updatesSeq + 1) (hseq : p.seq ≠ 0 ∧ p.seq ≠ st.updatesSeq) (r : Nat) :
    ∃ st', FedPack st p st' ∧ applyUpdates feed st p r =
      (drainBySeq feed st' p.seq).pass .sendHistoryChangeNotifications := by
  cases p with
  | updates updates users chats date seq =>
      refine ⟨_, fedState_fedPack feed st users chats date, ?_⟩
      simp only [MTPUpdates.seqStart, MTPUpdates.seq] at h hseq
      rw [applyUpdates, if_neg (by omega), if_neg (by omega)]
      exact congrArg (·.pass .sendHistoryChangeNotifications) (setState_pack feed hseq)
  | updatesCombined updates users chats date seqStart seq =>
      refine ⟨_, fedState_fedPack feed st users chats date, ?_⟩
      simp only [MTPUpdates.seqStart, MTPUpdates.seq] at h hseq
      rw [applyUpdates, if_neg (by omega), if_neg (by omega)]
      exact congrArg (·.pass .sendHistoryChangeNotifications) (setState_pack feed hseq)
  | _ => simp [MTPUpdates.isPack] at hp

theorem drainBySeq_none {st : Updates Update User Chat Message} (seq : Int)
    (h : st.bySeqUpdates.front? = none) : drainBySeq feed st seq = st := by
  rw [drainBySeq]
  split
  · rfl
  · next h' => simp [h] at h'

theorem drainBySeq_next {st : Updates Update User Chat Message} {seq : Int}
    {v : MTPUpdates Update User Chat Message}
    (h : st.bySeqUpdates.front? = some (seq + 1, v)) :
    drainBySeq feed st seq =
      applyUpdates feed { st with bySeqUpdates := st.bySeqUpdates.erase (seq + 1) } v 0 := by
  rw [drainBySeq]
  split
  · next h' => simp [h] at h'
  · next s v' h' =>
    obtain ⟨rfl, rfl⟩ : seq + 1 = s ∧ v = v' := by simpa [h] using h'
    simp [FlatMap.dropFront_one h]

theorem drainBySeq_later {st : Updates Update User Chat Message} {seq s : Int}
    {v : MTPUpdates Update User Chat Message}
    (h : st.bySeqUpdates.front? = some (s, v)) (hs : seq + 1 < s) :
    drainBySeq feed st seq = { st with bySeqTimer := true } := by
  rw [drainBySeq]
  split
  · next h' => simp [h] at h'
  · next s' v' h' =>
    obtain ⟨rfl, rfl⟩ : s = s' ∧ v = v' := by simpa [h] using h'
    rw [if_neg (not_le.mpr hs)]

variable {feed}

/-! ## One delivery -/

/-- **The next pack** is fed, and after it every parked pack whose turn comes. -/
theorem apply_next (hn : Numbered s₀ sN ps) (hpre : pre ⊆ ps)
    (hfed : FedUpTo s₀ before st pre out) (hpark : ParkedAbove st pre (st.updatesSeq + 1))
    (hv : v ∈ pre) (hstart : v.seqStart = st.updatesSeq + 1) (r : Nat) :
    ∃ out', InSeq s₀ before (applyUpdates feed st v r) pre out' := by
  -- Every recursive call has one parked pack less.
  induction hsize : st.bySeqUpdates.size using Nat.strong_induction_on
    generalizing st out v r with
  | _ n ih =>
    have hb := hn.bounds (hpre hv)
    have h0 := hn.start
    obtain ⟨st', hst', happ⟩ := applyUpdates_next feed (hn.pack v (hpre hv)) hstart
      ⟨by omega, by omega⟩ r
    have hfed' := hfed.next hn hpre hv hstart hst'
    have hpark' := hpark.skip hn hpre hv hstart hst'.parked
    have hlate : ∀ p ∈ pre, p.seqStart ≤ st'.updatesSeq → p ∈ out ++ [v] := fun p hp hle =>
      mem_of_reached hn (fun q hq => hpre (hfed'.subset hq)) hfed'.reached (hpre hp) hle
    rw [happ]
    rw [← hst'.seq] at hpark' ⊢
    cases hfront : st'.bySeqUpdates.front? with
    | none =>
        have hempty := FlatMap.front?_eq_none_iff.mp hfront
        rw [drainBySeq_none feed _ hfront]
        exact ⟨out ++ [v], inSeq_pass (hfed'.settle hpark' hlate fun k p hfind => by
          rw [hempty] at hfind; cases hfind)⟩
    | some e =>
        obtain ⟨k, u⟩ := e
        obtain ⟨hfind, hmin⟩ := FlatMap.front?_spec hfront
        obtain ⟨hu, hku, hklt⟩ := (hpark' k u).mp hfind
        obtain hnext | hlater : k = st'.updatesSeq + 1 ∨ st'.updatesSeq + 1 < k := by omega
        · subst hnext
          have hsmaller : (st'.bySeqUpdates.erase (st'.updatesSeq + 1)).size < n := by
            rw [← FlatMap.dropFront_one hfront, ← hsize, ← hst'.parked]
            exact FlatMap.size_dropFront_one hfront
          have herase : ParkedAbove
              { st' with bySeqUpdates := st'.bySeqUpdates.erase (st'.updatesSeq + 1) } pre
              (st'.updatesSeq + 1) := by
            intro k p
            rw [FlatMap.find?_erase]
            split
            · next heq => simp [heq]
            · next hne =>
              rw [hpark' k p]
              constructor
              · rintro ⟨hp, hk, hlt⟩
                exact ⟨hp, hk, by omega⟩
              · rintro ⟨hp, hk, hlt⟩
                exact ⟨hp, hk, by omega⟩
          rw [drainBySeq_next feed hfront]
          have hfedErase : FedUpTo s₀ before
              { st' with bySeqUpdates := st'.bySeqUpdates.erase (st'.updatesSeq + 1) } pre
              (out ++ [v]) :=
            ⟨hfed'.fed, hfed'.subset, hfed'.sorted, hfed'.start, hfed'.reached⟩
          obtain ⟨out', hout'⟩ := ih _ hsmaller hfedErase herase hu hku 0 rfl
          exact ⟨out', inSeq_pass hout'⟩
        · rw [drainBySeq_later feed hfront hlater]
          have hsettled := hfed'.settle hpark' hlate fun k' p hfind' =>
            lt_of_lt_of_le hlater (hmin k' p hfind')
          exact ⟨out ++ [v], inSeq_pass ⟨⟨hsettled.fed, hsettled.subset, hsettled.sorted,
            hsettled.start, hsettled.reached⟩, hsettled.caughtUp, hsettled.parked⟩⟩

/-- **Every delivery keeps the invariant.** -/
theorem InSeq.deliver (h : InSeq s₀ before st pre out) (hn : Numbered s₀ sN ps)
    (hpre : pre ++ [p] ⊆ ps) (r : Nat) :
    ∃ out', InSeq s₀ before (applyUpdates feed st p r) (pre ++ [p]) out' := by
  have hp : p ∈ ps := hpre (by simp)
  have hb := hn.bounds hp
  have h0 := hn.start
  have hgrow : out ⊆ pre ++ [p] := fun q hq => List.mem_append_left _ (h.subset hq)
  have hfed : FedUpTo s₀ before st (pre ++ [p]) out :=
    ⟨h.fed, hgrow, h.sorted, h.start, h.reached⟩
  obtain hold | hnext | hahead : p.seqStart ≤ st.updatesSeq ∨
      p.seqStart = st.updatesSeq + 1 ∨ st.updatesSeq + 1 < p.seqStart := by omega
  · -- Fed before: the copy is dropped.
    rw [applyUpdates_old feed (hn.pack p hp) (by omega) hold]
    have hin := mem_of_reached hn (fun q hq => hpre (hgrow hq)) h.reached hp hold
    refine ⟨out, { hfed with caughtUp := fun q hq hle => ?_, parked := h.parked.grow (by omega) }⟩
    cases List.mem_append.mp hq with
    | inl hmem => exact h.caughtUp q hmem hle
    | inr hmem => exact List.mem_singleton.mp hmem ▸ hin
  · exact apply_next hn hpre hfed (h.parked.grow hnext.le) (by simp) hnext r
  · -- Parked, or parked already: a copy finds its own first number taken.
    rw [applyUpdates_ahead feed (hn.pack p hp) (by omega) hahead]
    refine ⟨out, ⟨hfed.fed, hfed.subset, hfed.sorted, hfed.start, hfed.reached⟩,
      fun q hq hle => ?_, h.parked.park hn hpre hahead⟩
    cases List.mem_append.mp hq with
    | inl hmem => exact h.caughtUp q hmem hle
    | inr hmem =>
        rw [List.mem_singleton.mp hmem] at hle
        exact absurd hle (not_le.mpr hahead)

/-! ## The whole run -/

/-- The deliveries `ds`, each with the random id its caller passes. -/
def applyAll (feed : Feed Update User Chat Message) (st : Updates Update User Chat Message)
    (ds : List (MTPUpdates Update User Chat Message × Nat)) :
    Updates Update User Chat Message :=
  ds.foldl (fun st d => applyUpdates feed st d.1 d.2) st

/-- **Every run of deliveries keeps the invariant.** -/
theorem applyAll_inSeq (hn : Numbered s₀ sN ps) (h : InSeq s₀ before st pre [])
    {ds : List (MTPUpdates Update User Chat Message × Nat)}
    (hds : pre ++ ds.map Prod.fst ⊆ ps) :
    ∃ out, InSeq s₀ before (applyAll feed st ds) (pre ++ ds.map Prod.fst) out := by
  induction ds using List.reverseRecOn with
  | nil => exact ⟨[], by simpa [applyAll] using h⟩
  | append_singleton ds d ih =>
      rw [List.map_append, List.map_singleton, ← List.append_assoc] at hds ⊢
      obtain ⟨out, hout⟩ := ih (List.append_subset.mp hds).1
      rw [applyAll, List.foldl_append]
      exact hout.deliver hn hds d.2

/-- **Each pack exactly once and in order.**  Packs whose `seq` intervals partition
`(s₀, sN]`, each delivered at least once, in any order; some may be parked already. -/
theorem packs_fed_once_in_order (feed : Feed Update User Chat Message)
    (hn : Numbered s₀ sN ps) (st : Updates Update User Chat Message)
    (hseq : st.updatesSeq = s₀)
    (hparked : ∀ k p, st.bySeqUpdates.find? k = some p →
      p ∈ ps ∧ p.seqStart = k ∧ s₀ + 1 < k)
    {ds : List (MTPUpdates Update User Chat Message × Nat)} (hds : ds.map Prod.fst ⊆ ps)
    (hall : ps ⊆ ds.map Prod.fst) :
    (∃ out : List (MTPUpdates Update User Chat Message),
      out.Perm ps ∧ out.Nodup ∧ out.Pairwise (fun x y => x.seq < y.seq) ∧
      fedVectors (applyAll feed st ds).data =
        fedVectors st.data ++ out.map MTPUpdates.vupdates) ∧
    (applyAll feed st ds).updatesSeq = sN ∧ (applyAll feed st ds).bySeqUpdates = ∅ := by
  -- What is parked counts as delivered before.
  have hinit : InSeq s₀ (fedVectors st.data) st (st.bySeqUpdates.entries.map Prod.snd) [] := by
    have hmem : ∀ p, p ∈ st.bySeqUpdates.entries.map Prod.snd ↔
        st.bySeqUpdates.find? p.seqStart = some p := by
      intro p
      rw [List.mem_map]
      constructor
      · rintro ⟨⟨k, q⟩, he, rfl⟩
        have hfind := FlatMap.mem_entries_iff.mp he
        rwa [(hparked k q hfind).2.1]
      · intro hfind
        exact ⟨_, FlatMap.mem_entries_iff.mpr hfind, rfl⟩
    refine ⟨⟨by simp, by simp, List.Pairwise.nil, hseq.ge, ?_⟩, fun p hp hle => ?_, fun k p => ?_⟩
    · simp [covered, hseq]
    · have hlt := (hparked _ p ((hmem p).mp hp)).2.2
      omega
    · rw [hmem]
      constructor
      · intro hfind
        obtain ⟨-, hk, hlt⟩ := hparked k p hfind
        exact ⟨hk ▸ hfind, hk, hseq ▸ hlt⟩
      · rintro ⟨hfind, rfl, -⟩
        exact hfind
  have hpre : st.bySeqUpdates.entries.map Prod.snd ++ ds.map Prod.fst ⊆ ps := by
    refine List.append_subset.mpr ⟨fun p hp => ?_, hds⟩
    obtain ⟨⟨k, q⟩, he, rfl⟩ := List.mem_map.mp hp
    exact (hparked k q (FlatMap.mem_entries_iff.mp he)).1
  obtain ⟨out, hout⟩ := applyAll_inSeq hn hinit hpre
  have hsub : out ⊆ ps := fun p hp => hpre (hout.subset hp)
  have hsN : (applyAll feed st ds).updatesSeq = sN :=
    hout.reached_end hn hsub fun p hp => List.mem_append_right _ (hall hp)
  have hnodup : out.Nodup := hout.sorted.imp fun hlt heq => (heq ▸ hlt).false
  have hmem : ∀ p, p ∈ out ↔ p ∈ ps := fun p =>
    ⟨fun hp => hsub hp, fun hp => mem_of_reached hn hsub hout.reached hp (by
      have hb := hn.bounds hp
      omega)⟩
  refine ⟨⟨out, ?_, hnodup, hout.sorted, hout.fed⟩, hsN, FlatMap.eq_empty_iff.mpr fun k => ?_⟩
  · exact (List.perm_ext_iff_of_nodup hnodup hn.nodup).mpr hmem
  · cases hfind : (applyAll feed st ds).bySeqUpdates.find? k with
    | none => rfl
    | some p =>
        obtain ⟨hp, hk, hlt⟩ := (hout.parked k p).mp hfind
        have hb := hn.bounds (hpre hp)
        omega

/-- Two packs behind `5`, the later one first and twice. -/
theorem packs_fed_once_in_order_two :
    (applyAll ⟨fun _ => true, fun _ w => w, fun _ => false⟩
      ({ updatesSeq := 5 } : Updates Nat Unit Unit Unit)
      [(.updatesCombined [2] [] [] 0 7 8, 0), (.updatesCombined [2] [] [] 0 7 8, 0),
        (.updates [1] [] [] 0 6, 0)]).updatesSeq = 8 :=
  (packs_fed_once_in_order _
    (show Numbered 5 8 [.updatesCombined [2] [] [] 0 7 8, .updates [1] [] [] 0 6] from
      { start := by decide, pack := by decide
        tiles := { le := by decide, proper := by decide, apart := by unfold Apart; decide
                   cover := by decide } })
    { updatesSeq := 5 } rfl nofun (by decide) (by decide)).2.1

end Updates

end MessengerClient
