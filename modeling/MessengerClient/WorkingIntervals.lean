import MessengerClient.Lib.Intervals
import Mathlib.Data.List.Induction

/-!
# MessengerClient.WorkingIntervals

`Data::WorkingIntervals`: the opening hours of a week, in seconds from its start.

A schedule is a list of intervals in any order.  `normalized` sorts and merges them and moves
what lies after the end of the week to its start.  `ranges::sort` may leave intervals that start
together in any order, so the sort is a parameter.
-/

namespace MessengerClient

namespace Data

structure WorkingInterval where
  start : Int := 0
  end_ : Int := 0
deriving DecidableEq, Repr

namespace WorkingInterval

def kDay : Int := 24 * 3600
def kWeek : Int := 7 * kDay
def kInNextDayMax : Int := 6 * 3600

/-- `operator bool`. -/
def toBool (x : WorkingInterval) : Bool := x.start < x.end_

def shifted (x : WorkingInterval) (offset : Int) : WorkingInterval :=
  { start := x.start + offset, end_ := x.end_ + offset }

def united (x other : WorkingInterval) : WorkingInterval :=
  if !x.toBool then
    other
  else if !other.toBool then
    x
  else
    { start := min x.start other.start, end_ := max x.end_ other.end_ }

def intersected (x other : WorkingInterval) : WorkingInterval :=
  let result : WorkingInterval :=
    { start := max x.start other.start, end_ := min x.end_ other.end_ }
  if result.toBool then result else {}

theorem ext_ends {x y : WorkingInterval} (hstart : x.start = y.start) (hend : x.end_ = y.end_) :
    x = y := by
  cases x
  cases y
  simp_all

theorem toBool_iff {x : WorkingInterval} : x.toBool = true ↔ x.start < x.end_ := by
  simp [toBool]

theorem toBool_eq_false_iff {x : WorkingInterval} : x.toBool = false ↔ x.end_ ≤ x.start := by
  simp [toBool]

theorem toBool_intersected {x y : WorkingInterval} :
    (x.intersected y).toBool = true ↔ max x.start y.start < min x.end_ y.end_ := by
  unfold intersected
  dsimp only
  split
  · next h => exact toBool_iff
  · next h =>
      rw [toBool_iff] at h
      exact iff_of_false (by decide) h

theorem intersected_eq {x y : WorkingInterval} (h : (x.intersected y).toBool = true) :
    x.intersected y = { start := max x.start y.start, end_ := min x.end_ y.end_ } := by
  rw [toBool_intersected] at h
  unfold intersected
  rw [if_pos (toBool_iff.mpr h)]

/-- An intersection holds the seconds that both intervals hold. -/
theorem mem_intersected {x y : WorkingInterval} {t : Int} :
    ((x.intersected y).start ≤ t ∧ t < (x.intersected y).end_) ↔
      (x.start ≤ t ∧ t < x.end_) ∧ y.start ≤ t ∧ t < y.end_ := by
  by_cases h : (x.intersected y).toBool = true
  · rw [intersected_eq h]
    dsimp only
    omega
  · have hnone := toBool_eq_false_iff.mp (Bool.eq_false_of_not_eq_true h)
    rw [toBool_intersected] at h
    constructor <;> omega

end WorkingInterval

open WorkingInterval

/-- The second `t`, counted in weeks, is in some interval. -/
def CoversWeekly (list : List WorkingInterval) (t : Int) : Prop :=
  ∃ weeks : Int, Covers start end_ list (t + weeks * kWeek)

/-- Canonical schedules that cover the same seconds are the same. -/
theorem eq_of_covers_seconds {list list' : List WorkingInterval} (h : Canonical start end_ list)
    (h' : Canonical start end_ list')
    (hcovers : ∀ t, Covers start end_ list t ↔ Covers start end_ list' t) : list = list' :=
  h.eq_of_covers (fun _ _ => ext_ends) h' hcovers

/-! ## Sorting and merging -/

/-- One step of the loop of `SortAndMerge`; the intervals before it come last to first. -/
def mergeStep (done : List WorkingInterval) (x : WorkingInterval) : List WorkingInterval :=
  match done with
  | [] => if x.toBool then [x] else []
  | prev :: done =>
      if x.toBool && prev.toBool && x.start ≤ prev.end_ then
        prev.united x :: done
      else if x.toBool then
        x :: prev :: done
      else
        prev :: done

def sortAndMerge (sort : SortBy start) (list : List WorkingInterval) : List WorkingInterval :=
  ((sort.run list).foldl mergeStep []).reverse

variable {sort : SortBy start} {list list' done : List WorkingInterval} {x : WorkingInterval}
  {t : Int}

theorem mergeStep_empty (h : x.toBool = false) : mergeStep done x = done := by
  cases done <;> simp [mergeStep, h]

/-- What the loop has behind it: a canonical list, which starts no later than what follows. -/
structure Merged (done rest : List WorkingInterval) : Prop where
  canonical : Canonical start end_ done.reverse
  le : ∀ y ∈ done, ∀ x ∈ rest, y.start ≤ x.start

theorem Merged.nil {rest : List WorkingInterval} : Merged [] rest := ⟨canonical_nil, nofun⟩

/-- A step keeps the list canonical and adds what its interval covers. -/
theorem Merged.step {rest : List WorkingInterval} (h : Merged done (x :: rest))
    (hrest : ∀ y ∈ rest, x.start ≤ y.start) :
    Merged (mergeStep done x) rest ∧ ∀ t, Covers start end_ (mergeStep done x).reverse t ↔
      Covers start end_ done.reverse t ∨ (x.start ≤ t ∧ t < x.end_) := by
  have hle : ∀ y ∈ done, y.start ≤ x.start := fun y hy => h.le y hy x List.mem_cons_self
  have hlater : ∀ y ∈ done, ∀ z ∈ rest, y.start ≤ z.start := fun y hy z hz =>
    h.le y hy z (List.mem_cons_of_mem x hz)
  cases hx : x.toBool with
  | false =>
      rw [mergeStep_empty hx]
      rw [toBool_eq_false_iff] at hx
      refine ⟨⟨h.canonical, hlater⟩, fun t => (or_iff_left ?_).symm⟩
      omega
  | true =>
      have hlt := toBool_iff.mp hx
      cases done with
      | nil =>
          have hstep : mergeStep [] x = [x] := by simp [mergeStep, hx]
          rw [hstep]
          refine ⟨⟨canonical_cons.mpr ⟨hlt, by simp, canonical_nil⟩, ?_⟩, fun t => by simp⟩
          simpa using hrest
      | cons prev done =>
          have hcanonical := h.canonical
          rw [List.reverse_cons] at hcanonical
          obtain ⟨hdone, hlast, hbefore⟩ := canonical_append.mp hcanonical
          obtain ⟨hprev, -, -⟩ := canonical_cons.mp hlast
          have hprevle := hle prev List.mem_cons_self
          by_cases htouch : x.start ≤ prev.end_
          · have hunited : prev.united x =
                { start := prev.start, end_ := max prev.end_ x.end_ } := by
              rw [united, toBool_iff.mpr hprev, hx, Int.min_eq_left hprevle]
              rfl
            have hstep : mergeStep (prev :: done) x = prev.united x :: done := by
              simp [mergeStep, hx, toBool_iff.mpr hprev, htouch]
            rw [hstep, hunited]
            refine ⟨⟨?_, ?_⟩, fun t => ?_⟩
            · rw [List.reverse_cons]
              refine canonical_append.mpr ⟨hdone, canonical_cons.mpr ⟨?_, by simp, canonical_nil⟩,
                fun y hy z hz => ?_⟩
              · exact lt_max_of_lt_left hprev
              · rw [List.mem_singleton.mp hz]
                exact hbefore y hy prev (List.mem_singleton_self prev)
            · refine List.forall_mem_cons.mpr ⟨fun z hz => ?_, fun y hy => ?_⟩
              · exact hprevle.trans (hrest z hz)
              · exact hlater y (List.mem_cons_of_mem prev hy)
            · simp only [List.reverse_cons, covers_append, covers_cons, covers_nil, or_false]
              rw [or_assoc]
              refine or_congr_right ?_
              omega
          · have hstep : mergeStep (prev :: done) x = x :: prev :: done := by
              simp [mergeStep, hx, htouch]
            rw [hstep]
            refine ⟨⟨?_, ?_⟩, fun t => ?_⟩
            · rw [List.reverse_cons]
              refine canonical_append.mpr ⟨h.canonical,
                canonical_cons.mpr ⟨hlt, by simp, canonical_nil⟩, fun y hy z hz => ?_⟩
              rw [List.mem_singleton.mp hz]
              rw [List.reverse_cons, List.mem_append, List.mem_singleton] at hy
              rcases hy with hy | rfl
              · have hend := hbefore y hy prev (List.mem_singleton_self prev)
                omega
              · omega
            · exact List.forall_mem_cons.mpr ⟨hrest, hlater⟩
            · rw [List.reverse_cons, covers_append, covers_cons, or_iff_left covers_nil]

theorem Merged.foldl {rest : List WorkingInterval} (h : Merged done rest)
    (hsorted : rest.Pairwise fun x y => x.start ≤ y.start) :
    Canonical start end_ (rest.foldl mergeStep done).reverse ∧ ∀ t,
      Covers start end_ (rest.foldl mergeStep done).reverse t ↔
        Covers start end_ done.reverse t ∨ Covers start end_ rest t := by
  induction rest generalizing done with
  | nil => exact ⟨h.canonical, fun t => by simp⟩
  | cons x rest ih =>
      obtain ⟨hfirst, hrest⟩ := List.pairwise_cons.mp hsorted
      obtain ⟨hstep, hcovers⟩ := h.step hfirst
      obtain ⟨hcanonical, hall⟩ := ih hstep hrest
      refine ⟨hcanonical, fun t => ?_⟩
      rw [List.foldl_cons, hall, hcovers, covers_cons, or_assoc]

/-- **Sorting and merging** gives the canonical list of what the intervals cover. -/
theorem canonical_sortAndMerge : Canonical start end_ (sortAndMerge sort list) :=
  (Merged.nil.foldl (sort.sorted list)).1

theorem covers_sortAndMerge :
    Covers start end_ (sortAndMerge sort list) t ↔ Covers start end_ list t := by
  have hcovers := (Merged.nil.foldl (sort.sorted list)).2 t
  rw [sortAndMerge, hcovers, List.reverse_nil, or_iff_right covers_nil,
    covers_perm (sort.perm list)]

theorem sortAndMerge_of_canonical (h : Canonical start end_ list) : sortAndMerge sort list = list :=
  eq_of_covers_seconds canonical_sortAndMerge h fun _ => covers_sortAndMerge

/-! ## Moving the tail to the front -/

/-- The day after the end of the week. -/
def afterWeek : WorkingInterval := { start := kWeek, end_ := kWeek + kDay }

theorem toBool_tail {x : WorkingInterval} (h : (x.intersected afterWeek).toBool = true) :
    kWeek < x.end_ ∧ x.intersected afterWeek =
      { start := max x.start kWeek, end_ := min x.end_ (kWeek + kDay) } := by
  refine ⟨?_, intersected_eq h⟩
  rw [toBool_intersected] at h
  simp only [afterWeek] at h
  omega

/-- The last interval is replaced by what of it lies in the week, before and after. -/
def moveTail (front : List WorkingInterval) (back tail : WorkingInterval) : List WorkingInterval :=
  let back := { back with end_ := tail.start }
  tail.shifted (-kWeek) :: (front ++ if back.toBool then [back] else [])

/-- Fewer intervals are left that end after the week. -/
theorem countP_moveTail {front : List WorkingInterval} {back : WorkingInterval}
    (h : (back.intersected afterWeek).toBool = true) :
    (moveTail front back (back.intersected afterWeek)).countP (fun x => kWeek < x.end_) <
      (front ++ [back]).countP fun x => kWeek < x.end_ := by
  obtain ⟨hend, heq⟩ := toBool_tail h
  have hshifted : ¬kWeek < ((back.intersected afterWeek).shifted (-kWeek)).end_ := by
    simp only [heq, shifted, kWeek, kDay]
    omega
  have hback : ∀ x ∈ (if ({ back with end_ := max back.start kWeek } : WorkingInterval).toBool then
      [{ back with end_ := max back.start kWeek }] else []), ¬kWeek < x.end_ := by
    intro x hx
    split at hx
    · next hlt =>
        rw [toBool_iff] at hlt
        rw [List.mem_singleton.mp hx]
        dsimp only at hlt ⊢
        omega
    · cases hx
  have hzero := (List.countP_eq_zero (p := fun x : WorkingInterval => decide (kWeek < x.end_))).mpr
    fun x hx => by simpa using hback x hx
  rw [moveTail, List.countP_cons_of_neg (by simpa using hshifted), List.countP_append,
    List.countP_append, heq, hzero, List.countP_cons_of_pos (by simpa using hend)]
  exact Nat.lt_succ_self _

def moveTailToFront (list : List WorkingInterval) : List WorkingInterval :=
  match _hlast : list.getLast? with
  | none => list
  | some back =>
      let tail := back.intersected afterWeek
      if tail.toBool then
        moveTailToFront (moveTail list.dropLast back tail)
      else
        list
termination_by list.countP fun x => kWeek < x.end_
decreasing_by
  obtain ⟨front, rfl⟩ := List.getLast?_eq_some_iff.mp _hlast
  rw [List.dropLast_concat]
  exact countP_moveTail ‹_›

section MoveTailToFront

variable {front rest : List WorkingInterval} {back : WorkingInterval}

theorem moveTailToFront_of_le (h : ∀ x ∈ list.getLast?, x.end_ ≤ kWeek) :
    moveTailToFront list = list := by
  unfold moveTailToFront
  split
  · rfl
  · next back hback =>
      have hle := h back hback
      dsimp only
      rw [if_neg fun htail => absurd (toBool_tail htail).1 (not_lt_of_ge hle)]

/-- The last interval ends after the week. -/
theorem moveTailToFront_append (hlt : back.start < back.end_) (hgt : kWeek < back.end_)
    (hle : back.end_ ≤ kWeek + kDay) :
    moveTailToFront (front ++ [back]) = moveTailToFront
      ({ start := max back.start kWeek - kWeek, end_ := back.end_ - kWeek } ::
        (front ++ if back.start < kWeek then [{ back with end_ := kWeek }] else [])) := by
  have htail : (back.intersected afterWeek).toBool = true := by
    rw [toBool_intersected]
    simp only [afterWeek]
    omega
  rw [moveTailToFront]
  split
  · next hnone => simp at hnone
  · next last hlast =>
      rw [List.getLast?_concat, Option.some.injEq] at hlast
      subst hlast
      dsimp only
      rw [if_pos htail, (toBool_tail htail).2, List.dropLast_concat, Int.min_eq_left hle, moveTail]
      dsimp only
      by_cases hstart : back.start < kWeek
      · rw [Int.max_eq_right hstart.le, if_pos (toBool_iff.mpr hstart), if_pos hstart]
        rfl
      · rw [Int.max_eq_left (Int.not_lt.mp hstart), if_neg hstart, if_neg]
        · rfl
        · rw [toBool_iff]
          exact lt_irrefl _

theorem coversWeekly_perm (h : list.Perm list') : CoversWeekly list t ↔ CoversWeekly list' t := by
  simp only [CoversWeekly, covers_perm h]

theorem coversWeekly_append :
    CoversWeekly (list ++ list') t ↔ CoversWeekly list t ∨ CoversWeekly list' t := by
  simp only [CoversWeekly, covers_append, exists_or]

theorem coversWeekly_singleton :
    CoversWeekly [x] t ↔ ∃ weeks : Int, x.start ≤ t + weeks * kWeek ∧ t + weeks * kWeek < x.end_ := by
  simp [CoversWeekly]

/-- An interval is cut at the end of the week. -/
theorem coversWeekly_cut (hgt : kWeek < back.end_) :
    CoversWeekly [back] t ↔
      CoversWeekly [{ start := max back.start kWeek - kWeek, end_ := back.end_ - kWeek }] t ∨
      CoversWeekly (if back.start < kWeek then [{ back with end_ := kWeek }] else []) t := by
  simp only [coversWeekly_singleton]
  constructor
  · rintro ⟨weeks, hle, hlt⟩
    by_cases hafter : kWeek ≤ t + weeks * kWeek
    · left
      refine ⟨weeks - 1, ?_, ?_⟩
      · rw [Int.sub_mul]
        omega
      · rw [Int.sub_mul]
        omega
    · right
      rw [if_pos (by omega)]
      exact coversWeekly_singleton.mpr ⟨weeks, hle, by simpa using hafter⟩
  · intro h
    rcases h with ⟨weeks, hle, hlt⟩ | h
    · refine ⟨weeks + 1, ?_, ?_⟩
      · rw [Int.add_mul]
        omega
      · rw [Int.add_mul]
        omega
    · split at h
      · next hstart =>
          obtain ⟨weeks, hle, hlt⟩ := coversWeekly_singleton.mp h
          exact ⟨weeks, hle, hlt.trans hgt⟩
      · obtain ⟨_, hnone⟩ := h
        exact absurd hnone covers_nil

/-- Between the start of the week and the end of it. -/
def InWeek (list : List WorkingInterval) : Prop := ∀ x ∈ list, 0 ≤ x.start ∧ x.end_ ≤ kWeek

/-- **Moving the tail** of a canonical list keeps what it covers, counted in weeks; `moved` has been
moved already. -/
theorem moveTailToFront_spec (moved : List WorkingInterval)
    (hmoved : ∀ x ∈ moved, 0 ≤ x.start ∧ x.end_ ≤ kDay) (hrest : Canonical start end_ rest)
    (hbounds : ∀ x ∈ rest, 0 ≤ x.start ∧ x.end_ ≤ kWeek + kDay) :
    InWeek (moveTailToFront (moved ++ rest)) ∧
      ∀ t, CoversWeekly (moveTailToFront (moved ++ rest)) t ↔ CoversWeekly (moved ++ rest) t := by
  have hinside : ∀ x ∈ moved, 0 ≤ x.start ∧ x.end_ ≤ kWeek := fun x hx => by
    have hday := hmoved x hx
    simp only [kWeek, kDay] at hday ⊢
    omega
  induction rest using List.reverseRecOn generalizing moved with
  | nil =>
      rw [List.append_nil, moveTailToFront_of_le]
      · exact ⟨hinside, fun t => Iff.rfl⟩
      · exact fun x hx => (hinside x (List.mem_of_getLast? hx)).2
  | append_singleton rest back ih =>
      obtain ⟨hfront, hlast, hbefore⟩ := canonical_append.mp hrest
      obtain ⟨hlt, -, -⟩ := canonical_cons.mp hlast
      obtain ⟨hstart, hend⟩ := hbounds back (by simp)
      have hfrontbounds : ∀ x ∈ rest, 0 ≤ x.start ∧ x.end_ ≤ kWeek + kDay := fun x hx =>
        hbounds x (List.mem_append_left _ hx)
      have hearlier : back.start < kWeek → ∀ x ∈ rest, 0 ≤ x.start ∧ x.end_ ≤ kWeek :=
        fun hback x hx => by
          have hsep := hbefore x hx back (List.mem_singleton_self back)
          exact ⟨(hfrontbounds x hx).1, (hsep.trans hback).le⟩
      rw [← List.append_assoc]
      by_cases hgt : kWeek < back.end_
      · have hday : 0 ≤ max back.start kWeek - kWeek ∧ back.end_ - kWeek ≤ kDay := by omega
        have hcovers : ∀ t, CoversWeekly
            ({ start := max back.start kWeek - kWeek, end_ := back.end_ - kWeek } ::
              (moved ++ rest ++ if back.start < kWeek then [{ back with end_ := kWeek }] else [])) t ↔
              CoversWeekly (moved ++ rest ++ [back]) t := fun t => by
          have hback : CoversWeekly (moved ++ rest ++ [back]) t ↔
              CoversWeekly (moved ++ rest) t ∨ CoversWeekly [back] t := coversWeekly_append
          rw [← List.singleton_append, coversWeekly_append, coversWeekly_append, hback,
            coversWeekly_cut hgt, or_left_comm]
        rw [moveTailToFront_append hlt hgt hend]
        by_cases hback : back.start < kWeek
        · rw [if_pos hback] at hcovers ⊢
          rw [moveTailToFront_of_le]
          · refine ⟨?_, hcovers⟩
            rw [InWeek, List.forall_mem_cons, List.forall_mem_append, List.forall_mem_append,
              List.forall_mem_singleton]
            refine ⟨⟨hday.1, ?_⟩, ⟨hinside, hearlier hback⟩, hstart, le_rfl⟩
            simp only [kWeek, kDay] at hday ⊢
            omega
          · rw [← List.cons_append, List.getLast?_concat]
            rintro x ⟨⟩
            exact le_rfl
        · rw [if_neg hback, List.append_nil, ← List.cons_append] at hcovers ⊢
          have hmoved' : ∀ x ∈ ({ start := max back.start kWeek - kWeek, end_ := back.end_ - kWeek } ::
              moved : List WorkingInterval), 0 ≤ x.start ∧ x.end_ ≤ kDay :=
            List.forall_mem_cons.mpr ⟨hday, hmoved⟩
          obtain ⟨hweek, hsame⟩ := ih _ hmoved' hfront hfrontbounds fun x hx => by
            have hxday := hmoved' x hx
            simp only [kWeek, kDay] at hxday ⊢
            omega
          exact ⟨hweek, fun t => (hsame t).trans (hcovers t)⟩
      · have hle := Int.not_lt.mp hgt
        rw [moveTailToFront_of_le]
        · refine ⟨?_, fun t => Iff.rfl⟩
          rw [InWeek, List.forall_mem_append, List.forall_mem_append, List.forall_mem_singleton]
          exact ⟨⟨hinside, hearlier (hlt.trans_le hle)⟩, hstart, hle⟩
        · simpa using hle

end MoveTailToFront

/-! ## normalized -/

def normalized (sort : SortBy start) (list : List WorkingInterval) : List WorkingInterval :=
  sortAndMerge sort (moveTailToFront (sortAndMerge sort list))

/-- What a schedule may hold: a week and the day after it. -/
def Bounded (list : List WorkingInterval) : Prop :=
  ∀ x ∈ list, 0 ≤ x.start ∧ x.end_ ≤ kWeek + kDay

/-- The ends of a canonical list lie between ends of the intervals that it covers. -/
theorem mem_between (h : Canonical start end_ list)
    (hcovers : ∀ t, Covers start end_ list t → Covers start end_ list' t) (hx : x ∈ list) :
    ∃ y ∈ list', ∃ z ∈ list', y.start ≤ x.start ∧ x.end_ ≤ z.end_ := by
  have hlt := h.lt x hx
  obtain ⟨y, hy, hle, -⟩ := hcovers x.start ⟨x, hx, le_rfl, hlt⟩
  obtain ⟨z, hz, -, hend⟩ := hcovers (x.end_ - 1) ⟨x, hx, by omega, by omega⟩
  exact ⟨y, hy, z, hz, hle, by omega⟩

theorem bounded_sortAndMerge (h : Bounded list) : Bounded (sortAndMerge sort list) := fun x hx => by
  obtain ⟨y, hy, z, hz, hstart, hend⟩ :=
    mem_between canonical_sortAndMerge (fun _ => covers_sortAndMerge.mp) hx
  exact ⟨(h y hy).1.trans hstart, hend.trans (h z hz).2⟩

theorem coversWeekly_sortAndMerge :
    CoversWeekly (sortAndMerge sort list) t ↔ CoversWeekly list t := by
  simp only [CoversWeekly, covers_sortAndMerge]

theorem canonical_normalized : Canonical start end_ (normalized sort list) :=
  canonical_sortAndMerge

/-- What is moved is in the week, and covers what the intervals cover. -/
theorem moveTailToFront_sortAndMerge (h : Bounded list) :
    InWeek (moveTailToFront (sortAndMerge sort list)) ∧
      ∀ t, CoversWeekly (moveTailToFront (sortAndMerge sort list)) t ↔ CoversWeekly list t := by
  obtain ⟨hweek, hcovers⟩ :=
    moveTailToFront_spec [] (by simp) canonical_sortAndMerge (bounded_sortAndMerge h)
  exact ⟨hweek, fun t => (hcovers t).trans coversWeekly_sortAndMerge⟩

theorem inWeek_normalized (h : Bounded list) : InWeek (normalized sort list) := fun x hx => by
  have hweek := (@moveTailToFront_sortAndMerge sort list h).1
  obtain ⟨y, hy, z, hz, hstart, hend⟩ :=
    mem_between canonical_normalized (fun _ => covers_sortAndMerge.mp) hx
  exact ⟨(hweek y hy).1.trans hstart, hend.trans (hweek z hz).2⟩

/-- In the week, a schedule that lies in it covers what it covers counted in weeks. -/
theorem coversWeekly_of_inWeek (h : InWeek list) (ht : 0 ≤ t) (hweek : t < kWeek) :
    CoversWeekly list t ↔ Covers start end_ list t := by
  constructor
  · rintro ⟨weeks, x, hx, hle, hlt⟩
    obtain ⟨hstart, hend⟩ := h x hx
    have hzero : weeks = 0 := by
      simp only [kWeek, kDay] at hend hweek hle hlt
      omega
    subst hzero
    rw [Int.zero_mul, Int.add_zero] at hle hlt
    exact ⟨x, hx, hle, hlt⟩
  · intro ht
    exact ⟨0, by rwa [Int.zero_mul, Int.add_zero]⟩

theorem covers_normalized (h : Bounded list) (ht : 0 ≤ t) (hweek : t < kWeek) :
    Covers start end_ (normalized sort list) t ↔ CoversWeekly list t := by
  obtain ⟨hmoved, hcovers⟩ := @moveTailToFront_sortAndMerge sort list h
  rw [normalized, covers_sortAndMerge, ← coversWeekly_of_inWeek hmoved ht hweek, hcovers]

theorem InWeek.bounds (h : InWeek list) (ht : Covers start end_ list t) : 0 ≤ t ∧ t < kWeek := by
  obtain ⟨x, hx, hle, hlt⟩ := ht
  exact ⟨(h x hx).1.trans hle, hlt.trans_le (h x hx).2⟩

theorem InWeek.bounded (h : InWeek list) : Bounded list := fun x hx =>
  ⟨(h x hx).1, (h x hx).2.trans (by decide)⟩

/-- A canonical schedule of the week that covers the seconds is the normalized one. -/
theorem eq_normalized (h : Bounded list) (hcanonical : Canonical start end_ list')
    (hweek : InWeek list')
    (hcovers : ∀ t, 0 ≤ t → t < kWeek → (Covers start end_ list' t ↔ CoversWeekly list t)) :
    normalized sort list = list' := by
  refine eq_of_covers_seconds canonical_normalized hcanonical fun t => ?_
  by_cases ht : 0 ≤ t ∧ t < kWeek
  · rw [covers_normalized h ht.1 ht.2, hcovers t ht.1 ht.2]
  · exact iff_of_false (fun hcover => ht ((inWeek_normalized h).bounds hcover))
      fun hcover => ht (hweek.bounds hcover)

/-- **The canonical form** of a weekly schedule. -/
theorem normalized_canonical (sort : SortBy start) (list : List WorkingInterval)
    (h : Bounded list) :
    (normalized sort list).Pairwise (fun x y => x.start < y.start ∧ x.end_ < y.start) ∧
    (∀ x ∈ normalized sort list, x.start < x.end_ ∧ 0 ≤ x.start ∧ x.end_ ≤ kWeek) ∧
    (∀ t, 0 ≤ t → t < kWeek →
      (Covers start end_ (normalized sort list) t ↔ CoversWeekly list t)) ∧
    normalized sort (normalized sort list) = normalized sort list ∧
    ∀ (sort' : SortBy start) (list' : List WorkingInterval), list'.Perm list →
      normalized sort' list' = normalized sort list := by
  have hcanonical : Canonical start end_ (normalized sort list) := canonical_normalized
  have hweek := @inWeek_normalized sort list h
  refine ⟨?_, fun x hx => ⟨hcanonical.lt x hx, hweek x hx⟩, fun t => covers_normalized h, ?_, ?_⟩
  · refine hcanonical.apart.imp_of_mem fun {x y} hx _ hlt => ⟨?_, hlt⟩
    exact (hcanonical.lt x hx).trans hlt
  · exact eq_normalized hweek.bounded hcanonical hweek fun t ht hlt =>
      (coversWeekly_of_inWeek hweek ht hlt).symm
  · intro sort' list' hperm
    have hbounded : Bounded list' := fun x hx => h x (hperm.mem_iff.mp hx)
    refine eq_normalized hbounded hcanonical hweek fun t ht hlt => ?_
    rw [covers_normalized h ht hlt, coversWeekly_perm hperm]

/-- A night that goes on after the end of the week, a part of it again, and an empty interval. -/
theorem normalized_canonical_night :
    let night : List WorkingInterval :=
      [⟨6 * kDay + 72000, 7 * kDay + 21600⟩, ⟨9, 9⟩, ⟨7 * kDay, 7 * kDay + 60⟩]
    Covers start end_ (normalized (.merge start) night) 21599 ∧
      ¬Covers start end_ (normalized (.merge start) night) 21600 ∧
      normalized (.merge start) night.reverse = normalized (.merge start) night := by
  have h : Bounded [⟨6 * kDay + 72000, 7 * kDay + 21600⟩, ⟨9, 9⟩, ⟨7 * kDay, 7 * kDay + 60⟩] := by
    simp [Bounded, kWeek, kDay]
  obtain ⟨-, -, hcovers, -, horder⟩ := normalized_canonical (.merge start) _ h
  refine ⟨(hcovers 21599 (by decide) (by decide)).mpr ⟨1, _, List.mem_cons_self, ?_⟩, ?_, ?_⟩
  · decide
  · rw [hcovers 21600 (by decide) (by decide)]
    rintro ⟨weeks, x, hx, hle, hlt⟩
    simp only [List.mem_cons, List.not_mem_nil, or_false] at hx
    rcases hx with rfl | rfl | rfl <;> simp only [kWeek, kDay] at hle hlt <;> omega
  · exact horder _ _ (List.reverse_perm _)

end Data

end MessengerClient
