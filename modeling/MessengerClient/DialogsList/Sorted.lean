import MessengerClient.DialogsList.Placed

/-!
# MessengerClient.DialogsList.Sorted

The rows of a list whose sort keys have not changed are sorted while no row is moved to the
top and every row that is adjusted at once finds the others in order.  Where two or more rows
were pending, they are sorted after `unfreeze` whatever was done before.
-/

namespace MessengerClient

namespace DialogsList

variable {κ : Type} [DecidableEq κ] {l l' : DialogsList κ} {sortKey : κ → Nat} {pinned : Bool}
  {p : Pointer} {pending : List Pointer}

/-! ## One operation -/

theorem notMem_postponed {ps : List Pointer} {q : Pointer} :
    (q ∉ if p ∈ ps then ps else ps ++ [p]) ↔ q ∉ ps ∧ q ≠ p := by
  split
  · next hp =>
      refine ⟨fun hq => ⟨hq, ?_⟩, fun hq => hq.1⟩
      rintro rfl
      exact hq hp
  · simp

theorem filter_concat_sublist {ps : List Pointer} {keep : Pointer → Bool} (hp : keep p ≠ true) :
    ((ps ++ [p]).filter keep).Sublist ps := by
  rw [List.filter_append, List.filter_cons, if_neg hp, List.filter_nil, List.append_nil]
  exact List.filter_sublist

theorem Moved.sortKeyOf (h : Moved l l') : l'.sortKeyOf sortKey = l.sortKeyOf sortKey :=
  funext fun p => by rw [DialogsList.sortKeyOf, DialogsList.sortKeyOf, h.id]

/-- The rows are sorted. -/
def SortedBy (sortKey : κ → Nat) (l : DialogsList κ) : Prop :=
  Descending (l.sortKeyOf sortKey) l.rows

instance (sortKey : κ → Nat) (l : DialogsList κ) : Decidable (l.SortedBy sortKey) :=
  inferInstanceAs (Decidable (List.Pairwise _ _))

/-- **A row that is adjusted among rows in order comes to its place.** -/
theorem Good.adjustNow_sorted (h : l.Good) (hp : p ∈ l.rows)
    (hothers : Descending (l.sortKeyOf sortKey) (l.rows.filter (· ≠ p)))
    (hadjust : l.adjustNow sortKey p = some l') : l'.SortedBy sortKey := by
  obtain ⟨hmoved, before, after, hsplit, hgoes⟩ := h.adjustNow hp hadjust
  rw [hsplit, filter_ne (hsplit ▸ h.nodup)] at hothers
  rw [SortedBy, hmoved.sortKeyOf]
  rcases hgoes with ⟨hsome, hrows⟩ | ⟨hnone, hrows⟩
  · rw [hrows]
    exact hothers.forward hsome
  · rw [hrows]
    exact hothers.backward hnone

omit [DecidableEq κ] in
theorem sortedBy_of_sortedByDate (h : l.sortedByDate sortKey = true) : l.SortedBy sortKey := by
  refine descending_of_adjacent fun i hi => ?_
  have hi' := List.all_eq_true.mp h i (List.mem_range.mpr (by omega))
  simpa [hi, Nat.lt_of_succ_lt hi] using hi'

theorem Good.sortByDate_sorted (h : l.Good) (hsort : l.sortByDate sortKey = some l') :
    l'.SortedBy sortKey := by
  obtain ⟨hmoved, hrows⟩ := h.sortByDate hsort
  rw [SortedBy, hmoved.sortKeyOf, hrows]
  exact descending_mergeSort _

/-- **Where two or more rows were pending, the rows are sorted after `unfreeze`.** -/
theorem Good.unfreeze_sorted (h : l.Good) (hpending : ∀ p ∈ pending, p ∈ l.rows)
    (hlong : 2 ≤ pending.length) (hunfreeze : l.unfreeze sortKey pending = some l') :
    l'.SortedBy sortKey := by
  rcases unfreeze_cases hunfreeze with ⟨rfl, -⟩ | ⟨p, rfl, -⟩ | ⟨middle, hmiddle, hrest⟩
  · simp at hlong
  · simp at hlong
  · rcases hrest with ⟨hsorted, rfl⟩ | hsort
    · exact sortedBy_of_sortedByDate hsorted
    · exact (h.thawed.adjustAll rfl hpending hmiddle).good.sortByDate_sorted hsort

/-! ## Runs -/

namespace State

variable {s s' : State κ} {a : Action κ}

/-- A row is in order: it is not pending, and its sort key has not changed. -/
def Settled (s : State κ) (p : Pointer) : Prop :=
  p ∉ s.list.pendingAdjust ∧ ∀ key ∈ s.stale, (s.list.row p).id ≠ some key

instance (s : State κ) : DecidablePred s.Settled := fun _ => inferInstanceAs (Decidable (_ ∧ _))

/-- Where a row is adjusted at once, no other sort key has changed; and no row is moved to the
top. -/
def Disciplined (s : State κ) : Action κ → Prop
  | .addToEnd key pinned _ => s.list.getRow key = none → s.list.CanAdjust pinned → s.stale = []
  | .adjustByDate key pinned => s.list.CanAdjust pinned → ∀ k ∈ s.stale, k = key
  | .unfreeze [p] => ∀ k ∈ s.stale, (s.list.row p).id = some k
  | .moveToTop _ => False
  | _ => True

structure Ordered (s : State κ) : Prop where
  good : s.list.Good
  /-- Rows are pending only in a list that is frozen. -/
  frozen : s.list.frozen = false → s.list.pendingAdjust = []
  settled : Descending (s.list.sortKeyOf s.sortKey) (s.list.rows.filter fun p => s.Settled p)

theorem ordered_of_sorted (hgood : s.list.Good)
    (hfrozen : s.list.frozen = false → s.list.pendingAdjust = [])
    (hsorted : s.list.SortedBy s.sortKey) : s.Ordered :=
  ⟨hgood, hfrozen, hsorted.sublist List.filter_sublist⟩

/-- The rows that are in order were, in the same places and under the same sort keys. -/
theorem Ordered.keep (h : s.Ordered)
    (hrows : (s'.list.rows.filter fun p => s'.Settled p).Sublist s.list.rows)
    (hsame : ∀ p ∈ s'.list.rows, s'.Settled p →
      s.Settled p ∧ s'.list.sortKeyOf s'.sortKey p = s.list.sortKeyOf s.sortKey p) :
    Descending (s'.list.sortKeyOf s'.sortKey) (s'.list.rows.filter fun p => s'.Settled p) := by
  have hall : ∀ p ∈ s'.list.rows.filter fun p => s'.Settled p, s.Settled p ∧
      s'.list.sortKeyOf s'.sortKey p = s.list.sortKeyOf s.sortKey p := fun p hp => by
    obtain ⟨hp, hsettled⟩ := List.mem_filter.mp hp
    exact hsame p hp (of_decide_eq_true hsettled)
  refine (h.settled.filter hrows fun p hp => ?_).congr fun p hp => (hall p hp).2
  exact decide_eq_true (hall p hp).1

theorem Ordered.none_pending (h : s.Ordered) (hcan : s.list.CanAdjust pinned) :
    s.list.pendingAdjust = [] := by
  cases hfrozen : s.list.frozen with
  | false => exact h.frozen hfrozen
  | true => exact (hcan hfrozen).1

/-- The rows but one are in order, where no other sort key has changed. -/
theorem Ordered.others (h : s.Ordered) (hnone : ∀ q ∈ s.list.pendingAdjust, q = p)
    (hp : p ∈ s.list.rows) (halone : ∀ k ∈ s.stale, (s.list.row p).id = some k) :
    Descending (s.list.sortKeyOf s.sortKey) (s.list.rows.filter (· ≠ p)) := by
  refine h.settled.filter List.filter_sublist fun q hq => decide_eq_true ⟨?_, ?_⟩
  · intro hpending
    simp [hnone q hpending] at hq
  · intro k hk hid
    obtain ⟨hq, hne⟩ := List.mem_filter.mp hq
    have hrow := (h.good.getRow_eq k p).mpr ⟨hp, halone k hk⟩
    rw [(h.good.getRow_eq k q).mpr ⟨hq, hid⟩] at hrow
    simp [Option.some.inj hrow] at hne

/-! ### Every action -/

theorem ordered_setSortKey {key : κ} {k : Nat} (h : s.Ordered)
    (hnext : s.next (.setSortKey key k) = some s') : s'.Ordered := by
  obtain rfl := Option.some.inj hnext
  refine ⟨h.good, h.frozen, h.keep List.filter_sublist fun p hp hsettled => ?_⟩
  obtain ⟨hpending, hstale⟩ := hsettled
  have hother : (s.list.row p).id ≠ some key := fun hid => by
    have hrow := (h.good.getRow_eq key p).mpr ⟨hp, hid⟩
    exact hstale key (by simp [hrow]) hid
  refine ⟨⟨hpending, fun k' hk' => hstale k' ?_⟩, ?_⟩
  · dsimp only
    split
    · exact List.mem_cons_of_mem _ hk'
    · exact hk'
  · obtain ⟨k', hid⟩ := h.good.keyed p hp
    simp only [DialogsList.sortKeyOf, hid, Option.map_some]
    rw [Function.update_of_ne]
    rintro rfl
    exact hother hid

theorem ordered_adjustByDate {key : κ} (h : s.Ordered)
    (hok : s.Disciplined (.adjustByDate key pinned))
    (hnext : s.next (.adjustByDate key pinned) = some s') : s'.Ordered := by
  obtain ⟨p, hrow, hnext⟩ := Option.bind_eq_some_iff.mp hnext
  obtain ⟨list, hlist, hnext⟩ := Option.bind_eq_some_iff.mp hnext
  obtain rfl := Option.some.inj hnext
  obtain ⟨hp, hid⟩ := (h.good.getRow_eq key p).mp hrow
  rcases adjustByDate_cases hlist with ⟨hcan, hnow⟩ | ⟨hcannot, rfl⟩
  · have hmoved := (h.good.adjustNow hp hnow).1
    have hnone := h.none_pending hcan
    refine ordered_of_sorted hmoved.good (fun _ => hmoved.pending.trans hnone)
      (h.good.adjustNow_sorted hp (h.others (by simp [hnone]) hp fun k hk => ?_) hnow)
    rw [hok hcan k hk, hid]
  · have hfrozen : s.list.frozen ≠ false := fun hfrozen =>
      hcannot fun hyes => by simp [hfrozen] at hyes
    refine ⟨h.good.adjustByDate hp hlist, fun hno => absurd hno hfrozen,
      h.keep List.filter_sublist fun q hq hsettled => ⟨?_, rfl⟩⟩
    obtain ⟨hpending, hstale⟩ := hsettled
    obtain ⟨hpending, hne⟩ := notMem_postponed.mp hpending
    refine ⟨hpending, fun k hk hqid => ?_⟩
    by_cases hkey : k = key
    · have hrow' := (h.good.getRow_eq k q).mpr ⟨hq, hqid⟩
      rw [hkey, hrow] at hrow'
      exact hne (Option.some.inj hrow').symm
    · exact hstale k (List.mem_filter.mpr ⟨hk, by simpa using hkey⟩) hqid

theorem ordered_addToEnd {key : κ} {counted : Nat} (h : s.Ordered)
    (hok : s.Disciplined (.addToEnd key pinned counted))
    (hnext : s.next (.addToEnd key pinned counted) = some s') : s'.Ordered := by
  obtain ⟨list, hlist, rfl⟩ := Option.map_eq_some_iff.mp hnext
  rcases addToEnd_cases hlist with rfl | ⟨hnone, top, htop, hadjust⟩
  · exact h
  · have hgood := h.good.appended counted hnone htop
    have hkeys : ∀ p ∈ s.list.rows, (s.list.appended key counted top).sortKeyOf s.sortKey p =
        s.list.sortKeyOf s.sortKey p := fun p hp => by
      rw [DialogsList.sortKeyOf, DialogsList.sortKeyOf, h.good.row_appended hp]
    have hmade : s.list.made ∈ (s.list.appended key counted top).rows :=
      List.mem_append_right _ (List.mem_singleton_self _)
    rcases adjustByDate_cases hadjust with ⟨hcan, hnow⟩ | ⟨hcannot, rfl⟩
    · have hmoved := (hgood.adjustNow hmade hnow).1
      have hpending := h.none_pending hcan
      have hstale := hok hnone hcan
      refine ordered_of_sorted hmoved.good (fun _ => hmoved.pending.trans hpending)
        (hgood.adjustNow_sorted hmade ?_ hnow)
      have hothers : (s.list.rows ++ [s.list.made]).filter (· ≠ s.list.made) = s.list.rows := by
        rw [filter_ne hgood.nodup, List.append_nil]
      have hsorted := h.settled.filter (List.Sublist.refl _) fun p hp =>
        decide_eq_true ⟨by simp [hpending], by simp [hstale]⟩
      exact hothers ▸ hsorted.congr hkeys
    · have hfrozen : s.list.frozen ≠ false := fun hfrozen =>
        hcannot fun hyes => by simp [DialogsList.appended, hfrozen] at hyes
      refine ⟨hgood.adjustByDate hmade hadjust, fun hno => absurd hno hfrozen, h.keep ?_ ?_⟩
      · refine filter_concat_sublist fun hsettled => ?_
        exact (notMem_postponed.mp (of_decide_eq_true hsettled).1).2 rfl
      · intro p hp hsettled
        obtain ⟨hpending, hstale⟩ := hsettled
        obtain ⟨hpending, hne⟩ := notMem_postponed.mp hpending
        have hp : p ∈ s.list.rows :=
          (List.mem_append.mp hp).resolve_right fun hmade => hne (List.mem_singleton.mp hmade)
        refine ⟨⟨hpending, fun k hk hid => hstale k hk ?_⟩, hkeys p hp⟩
        rw [← hid]
        exact congrArg Row.id (h.good.row_appended hp)

/-- Where the rows keep their places. -/
theorem Ordered.of_moved {list : DialogsList κ} (h : s.Ordered) (hmoved : Moved s.list list)
    (hrows : list.rows = s.list.rows) : Ordered { s with list } := by
  refine ⟨hmoved.good, fun hfrozen => ?_, h.keep ?_ fun p _ hsettled => ⟨?_, ?_⟩⟩
  · exact hmoved.pending.trans (h.frozen (hmoved.frozen.symm.trans hfrozen))
  · exact hrows ▸ List.filter_sublist
  · obtain ⟨hpending, hstale⟩ := hsettled
    refine ⟨hmoved.pending ▸ hpending, fun k hk hid => hstale k hk ?_⟩
    exact (hmoved.id p).trans hid
  · exact congrFun hmoved.sortKeyOf p

theorem ordered_unfreeze (h : s.Ordered) (hok : s.Disciplined (.unfreeze pending))
    (hnext : s.next (.unfreeze pending) = some s') : s'.Ordered := by
  obtain ⟨hperm, hnext⟩ := Option.ite_none_right_eq_some.mp hnext
  obtain ⟨list, hlist, rfl⟩ := Option.map_eq_some_iff.mp hnext
  have hperm := List.isPerm_iff.mp hperm
  have hpending : ∀ p ∈ pending, p ∈ s.list.rows := fun p hp =>
    h.good.pending p (hperm.mem_iff.mp hp)
  have hmoved := h.good.unfreeze hpending hlist
  match pending with
  | [] =>
      have hnone := hperm.nil_eq.symm
      obtain rfl := Option.some.inj hlist
      refine ⟨hmoved.good, fun _ => rfl, h.keep List.filter_sublist fun p _ hsettled => ⟨?_, rfl⟩⟩
      exact ⟨by simp [hnone], hsettled.2⟩
  | [p] =>
      have hnow := adjustNow_of_adjustByDate rfl hlist
      have hp := hpending p List.mem_cons_self
      refine ordered_of_sorted hmoved.good (fun _ => hmoved.pending)
        (h.good.thawed.adjustNow_sorted hp (h.others (fun q hq => ?_) hp hok) hnow)
      exact List.mem_singleton.mp (hperm.mem_iff.mpr hq)
  | p :: q :: rest =>
      exact ordered_of_sorted hmoved.good (fun _ => hmoved.pending)
        (h.good.unfreeze_sorted hpending (by simp) hlist)

theorem ordered_remove {key : κ} (h : s.Ordered) (hnext : s.next (.remove key) = some s') :
    s'.Ordered := by
  obtain ⟨list, hlist, rfl⟩ := Option.map_eq_some_iff.mp hnext
  rcases h.good.remove hlist with ⟨hnone, rfl⟩ | ⟨p, hrow, hremoved⟩
  · refine ⟨h.good, h.frozen, h.keep List.filter_sublist fun p hp hsettled => ⟨?_, rfl⟩⟩
    refine ⟨hsettled.1, fun k hk hid => ?_⟩
    by_cases hkey : k = key
    · rw [← hkey, (h.good.getRow_eq k p).mpr ⟨hp, hid⟩] at hnone
      cases hnone
    · exact hsettled.2 k (List.mem_filter.mpr ⟨hk, by simpa using hkey⟩) hid
  · have hsortKey : list.sortKeyOf s.sortKey = s.list.sortKeyOf s.sortKey := funext fun q => by
      rw [DialogsList.sortKeyOf, DialogsList.sortKeyOf, hremoved.id]
    refine ⟨hremoved.good, fun hfrozen => ?_, h.keep ?_ fun q hq hsettled => ⟨?_, ?_⟩⟩
    · show list.pendingAdjust = []
      rw [hremoved.pending, h.frozen (hremoved.frozen.symm.trans hfrozen), List.filter_nil]
    · exact List.filter_sublist.trans (hremoved.rows ▸ List.filter_sublist)
    · obtain ⟨hpending, hstale⟩ := hsettled
      dsimp only at hq hpending hstale
      rw [hremoved.rows, List.mem_filter, decide_eq_true_iff] at hq
      rw [hremoved.pending, List.mem_filter, decide_eq_true_iff] at hpending
      refine ⟨fun hmem => hpending ⟨hmem, hq.2⟩, fun k hk hid => ?_⟩
      by_cases hkey : k = key
      · have hrow' := (h.good.getRow_eq k q).mpr ⟨hq.1, hid⟩
        rw [hkey, hrow] at hrow'
        exact hq.2 (Option.some.inj hrow').symm
      · exact hstale k (List.mem_filter.mpr ⟨hk, by simpa using hkey⟩) ((hremoved.id q).trans hid)
    · exact congrFun hsortKey q

/-- **Every disciplined action keeps the settled rows in order.** -/
theorem ordered_next (h : s.Ordered) (hok : s.Disciplined a) (hnext : s.next a = some s') :
    s'.Ordered := by
  cases a with
  | setSortKey key k => exact ordered_setSortKey h hnext
  | addToEnd key pinned counted => exact ordered_addToEnd h hok hnext
  | adjustByDate key pinned => exact ordered_adjustByDate h hok hnext
  | freeze =>
      have hgood := good_next h.good hnext
      obtain rfl := Option.some.inj hnext
      exact ⟨hgood, nofun, h.keep List.filter_sublist fun p _ hsettled => ⟨hsettled, rfl⟩⟩
  | unfreeze pending => exact ordered_unfreeze h hok hnext
  | updateHeight key counted =>
      obtain ⟨list, hlist, rfl⟩ := Option.map_eq_some_iff.mp hnext
      obtain ⟨hmoved, hrows⟩ := h.good.updateHeight hlist
      exact h.of_moved hmoved hrows
  | updateHeights counted =>
      obtain ⟨list, hlist, rfl⟩ := Option.map_eq_some_iff.mp hnext
      obtain ⟨hmoved, hrows⟩ := h.good.updateHeights hlist
      exact h.of_moved hmoved hrows
  | moveToTop key => exact hok.elim
  | remove key => exact ordered_remove h hnext

theorem ordered_of_reached (h : system.Reached Disciplined s) : s.Ordered := by
  refine h.invariant (fun s hs => ?_) fun s a s' hs hok hstep => ordered_next hs hok hstep
  obtain ⟨list, sortKey, stale⟩ := s
  obtain ⟨rfl, -⟩ := hs
  exact ⟨good_empty, fun _ => rfl, List.Pairwise.nil⟩

/-- **A chat list is indexed and positioned in every state, and it is sorted.**  Its rows are
in order in every state of a disciplined run in which no sort key has changed and the list is
not frozen, and after every `unfreeze` that found two or more rows pending. -/
theorem indexed_and_sorted :
    (∀ s : State κ, system.Reachable s →
      (∀ i p, s.list.rows[i]? = some p → (s.list.row p).index = i ∧
        (s.list.row p).top = total s.list.row (s.list.rows.take i)) ∧
      s.list.rows.Nodup ∧
      (∀ p ∈ s.list.rows, ∃ key, s.list.getRow key = some p) ∧
      (∀ key p, s.list.getRow key = some p → p ∈ s.list.rows ∧ (s.list.row p).id = some key) ∧
      ∀ p ∈ s.list.pendingAdjust, p ∈ s.list.rows) ∧
    (∀ s : State κ, system.Reached Disciplined s → s.list.frozen = false → s.stale = [] →
      s.list.SortedBy s.sortKey) ∧
    ∀ (s s' : State κ) (pending : List Pointer), system.Reachable s → 2 ≤ pending.length →
      s.next (.unfreeze pending) = some s' → s'.list.SortedBy s'.sortKey := by
  refine ⟨fun s hs => ?_, fun s hs hfrozen hstale => ?_, fun s s' pending hs hlong hnext => ?_⟩
  · have h := good_of_reachable hs
    refine ⟨fun i p hp => ?_, h.nodup, fun p hp => ?_, fun key p => (h.getRow_eq key p).mp,
      h.pending⟩
    · simpa using h.placed.get hp
    · obtain ⟨key, hid⟩ := h.keyed p hp
      exact ⟨key, (h.getRow_eq key p).mpr ⟨hp, hid⟩⟩
  · have h := ordered_of_reached hs
    exact h.settled.filter (List.Sublist.refl _) fun p _ =>
      decide_eq_true ⟨by simp [h.frozen hfrozen], by simp [hstale]⟩
  · have h := good_of_reachable hs
    obtain ⟨hperm, hnext⟩ := Option.ite_none_right_eq_some.mp hnext
    obtain ⟨list, hlist, rfl⟩ := Option.map_eq_some_iff.mp hnext
    exact h.unfreeze_sorted
      (fun p hp => h.pending p ((List.isPerm_iff.mp hperm).mem_iff.mp hp)) hlong hlist

/-- Two rows that wait while the list is frozen. -/
def postponed : List (Action Nat) :=
  [.setSortKey 0 10, .setSortKey 1 5, .setSortKey 2 3, .addToEnd 0 false 60, .addToEnd 1 false 60,
    .addToEnd 2 false 60, .freeze, .setSortKey 1 20, .adjustByDate 1 false, .setSortKey 2 15,
    .adjustByDate 2 false]

theorem indexed_and_sorted_postponed : ∃ s s' : State Nat, postponed.foldlM next {} = some s ∧
    s.next (.unfreeze [1, 2]) = some s' ∧ (∀ i p, s.list.rows[i]? = some p →
      (s.list.row p).index = i) ∧ s'.list.SortedBy s'.sortKey := by
  have hrun : ((postponed.foldlM next {}).bind fun s => s.next (.unfreeze [1, 2])).isSome := by
    decide +kernel
  obtain ⟨s', hrun⟩ := Option.isSome_iff_exists.mp hrun
  obtain ⟨s, hs, hs'⟩ := Option.bind_eq_some_iff.mp hrun
  have hreached : system.Reachable s :=
    .foldlM (.init ⟨rfl, rfl⟩) (fun _ _ _ hstep => hstep) hs
  obtain ⟨hindexed, -, hsorted⟩ := @indexed_and_sorted Nat _
  exact ⟨s, s', hs, hs', fun i p hp => ((hindexed s hreached).1 i p hp).1,
    hsorted s s' [1, 2] hreached (by decide) hs'⟩

/-! ### Runs that end out of order -/

/-- No row is pending, so that the row on the top stays there. -/
def raised : List (Action Nat) :=
  [.setSortKey 0 2, .setSortKey 1 1, .addToEnd 0 false 60, .addToEnd 1 false 60, .moveToTop 1,
    .freeze, .unfreeze []]

/-- Two sort keys change while the list is frozen; a pinned row is adjusted after a row that is
out of order. -/
def pinnedTogether : List (Action Nat) :=
  [.setSortKey 0 10, .setSortKey 1 5, .setSortKey 2 3, .addToEnd 0 true 60, .addToEnd 1 true 60,
    .addToEnd 2 true 60, .freeze, .setSortKey 1 20, .setSortKey 2 15, .adjustByDate 2 true,
    .adjustByDate 1 true, .unfreeze []]

/-- A row is added after a row that is out of order. -/
def addedBetween : List (Action Nat) :=
  [.setSortKey 0 10, .setSortKey 1 5, .addToEnd 0 false 60, .addToEnd 1 false 60, .setSortKey 1 20,
    .setSortKey 2 15, .addToEnd 2 false 60, .adjustByDate 1 false]

/-- A run ends with the sort keys of the rows out of order. -/
theorem unsorted_of_keys {actions : List (Action Nat)} (keys : List Nat)
    (hrun : (actions.foldlM next {}).map (fun s =>
      (s.list.rows.map (s.list.sortKeyOf s.sortKey), s.list.frozen, s.stale)) =
        some (keys, false, []))
    (hkeys : ¬ keys.Pairwise fun a b => b ≤ a) :
    ∃ s, actions.foldlM next {} = some s ∧ s.list.frozen = false ∧ s.stale = [] ∧
      ¬ s.list.SortedBy s.sortKey := by
  obtain ⟨s, hs, heq⟩ := Option.map_eq_some_iff.mp hrun
  simp only [Prod.mk.injEq] at heq
  obtain ⟨rfl, hfrozen, hstale⟩ := heq
  refine ⟨s, hs, hfrozen, hstale, fun hsorted => hkeys ?_⟩
  exact List.pairwise_map.mpr hsorted

theorem not_sorted :
    (∃ s, raised.foldlM next {} = some s ∧ s.list.frozen = false ∧ s.stale = [] ∧
      ¬ s.list.SortedBy s.sortKey) ∧
    (∃ s, pinnedTogether.foldlM next {} = some s ∧ s.list.frozen = false ∧ s.stale = [] ∧
      ¬ s.list.SortedBy s.sortKey) ∧
    ∃ s, addedBetween.foldlM next {} = some s ∧ s.list.frozen = false ∧ s.stale = [] ∧
      ¬ s.list.SortedBy s.sortKey :=
  ⟨unsorted_of_keys [1, 2] (by decide +kernel) (by decide),
    unsorted_of_keys [20, 10, 15] (by decide +kernel) (by decide),
    unsorted_of_keys [20, 10, 15] (by decide +kernel) (by decide)⟩

end State

end DialogsList

end MessengerClient
