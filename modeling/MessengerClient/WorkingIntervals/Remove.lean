import MessengerClient.WorkingIntervals

/-!
# MessengerClient.WorkingIntervals.Remove

`RemoveDayIntervals`: a weekly schedule without one of its days.

The part of an interval that goes on from the day before stays where it ends early.  An interval
that began before the day and goes on after it loses what comes after: the loop writes the part
before the day over the interval and then looks for the part after the day in that.
-/

namespace MessengerClient

namespace Data

open WorkingInterval

def dayShifted (dayIndex : Int) : WorkingInterval :=
  WorkingInterval.shifted { start := 0, end_ := kDay } (dayIndex * kDay)

/-- The loop of `RemoveDayIntervals`: the intervals before the index, the ones from it on that are
counted, and the ones that were put at the end. -/
def removeLoop (dayIndex : Int) (done : List WorkingInterval) :
    List WorkingInterval → List WorkingInterval → List WorkingInterval
  | [], pushed => done ++ pushed
  | x :: rest, pushed =>
      let shifted := dayShifted dayIndex
      let before : WorkingInterval := { start := 0, end_ := shifted.start }
      let after : WorkingInterval := { start := shifted.end_, end_ := kWeek }
      let back := (done ++ x :: rest ++ pushed).getLastD x
      if x.end_ ≤ shifted.start ∨ x.start ≥ shifted.end_ then
        removeLoop dayIndex (done ++ [x]) rest pushed
      else if x.end_ ≤ shifted.start + kInNextDayMax ∧ (x.start < shifted.start ∨
          (dayIndex = 0 ∧ x.start = shifted.start ∧ back.end_ ≥ kWeek)) then
        removeLoop dayIndex (done ++ [x]) rest pushed
      else
        let first := x.intersected before
        if first.toBool then
          -- the interval has been replaced by its first part
          let second := first.intersected after
          removeLoop dayIndex (done ++ [first]) rest
            (if second.toBool then pushed ++ [second] else pushed)
        else
          let second := x.intersected after
          if second.toBool then
            removeLoop dayIndex (done ++ [second]) rest pushed
          else
            removeLoop dayIndex done rest pushed

def removeDayIntervals (sort : SortBy start) (intervals : List WorkingInterval)
    (dayIndex : Int) : List WorkingInterval :=
  normalized sort (removeLoop dayIndex [] (normalized sort intervals) [])

variable {sort : SortBy start} {intervals list : List WorkingInterval} {dayIndex t : Int}
  {x : WorkingInterval}

/-! ## What the loop leaves of an interval -/

/-- The part of an interval that stays; `backEnd` is where the last interval ends. -/
def cutDay (day backEnd : Int) (x : WorkingInterval) : List WorkingInterval :=
  if x.end_ ≤ day ∨ day + kDay ≤ x.start then
    [x]
  else if x.end_ ≤ day + kInNextDayMax ∧ (x.start < day ∨ (day = 0 ∧ x.start = 0 ∧ kWeek ≤ backEnd))
  then
    [x]
  else if x.start < day then
    [{ start := x.start, end_ := day }]
  else if day + kDay < x.end_ then
    [{ start := day + kDay, end_ := x.end_ }]
  else
    []

/-- **The loop** treats every interval of a canonical schedule on its own. -/
theorem removeLoop_eq {done rest : List WorkingInterval} {backEnd : Int}
    (hday : 0 ≤ dayIndex) (hrest : Canonical start end_ rest) (hweek : InWeek rest)
    (hback : ∀ x ∈ rest.head?, x.start = 0 → ((done ++ rest).getLastD x).end_ = backEnd) :
    removeLoop dayIndex done rest [] =
      done ++ rest.flatMap (cutDay (dayIndex * kDay) backEnd) := by
  induction rest generalizing done with
  | nil => simp [removeLoop]
  | cons x rest ih =>
      obtain ⟨hlt, hlater, htail⟩ := canonical_cons.mp hrest
      obtain ⟨hstart, hend⟩ := hweek x List.mem_cons_self
      have hnext : ∀ done, removeLoop dayIndex done rest [] =
          done ++ rest.flatMap (cutDay (dayIndex * kDay) backEnd) := fun done =>
        ih htail (fun y hy => hweek y (List.mem_cons_of_mem x hy)) fun y hy hzero => by
          have hsep := hlater y (List.mem_of_mem_head? hy)
          omega
      have hback' := hback x rfl
      have hzero : dayIndex = 0 ↔ dayIndex * kDay = 0 := by
        simp only [kDay]
        omega
      have hnonneg : 0 ≤ dayIndex * kDay := by
        simp only [kDay]
        omega
      rw [removeLoop, List.flatMap_cons, cutDay]
      simp only [dayShifted, shifted, Int.zero_add, ge_iff_le, Int.add_comm kDay, List.append_nil]
      generalize dayIndex * kDay = day at *
      by_cases hout : x.end_ ≤ day ∨ day + kDay ≤ x.start
      · rw [if_pos hout, if_pos hout, hnext, List.append_assoc]
      · rw [if_neg hout, if_neg hout]
        by_cases hkept : x.end_ ≤ day + kInNextDayMax ∧
            (x.start < day ∨ (day = 0 ∧ x.start = 0 ∧ kWeek ≤ backEnd))
        · rw [if_pos hkept, if_pos, hnext, List.append_assoc]
          refine ⟨hkept.1, hkept.2.imp_right fun hspan => ?_⟩
          obtain ⟨hday, hfirst, hwrap⟩ := hspan
          rw [hback' hfirst]
          exact ⟨hzero.mpr hday, hfirst.trans hday.symm, hwrap⟩
        · rw [if_neg hkept, if_neg]
          · by_cases hbefore : x.start < day
            · have hfirst : (x.intersected ⟨0, day⟩).toBool = true := by
                rw [toBool_intersected]
                dsimp only
                omega
              have heq : x.intersected ⟨0, day⟩ = ⟨x.start, day⟩ := by
                rw [intersected_eq hfirst]
                dsimp only
                congr 1 <;> omega
              have hsecond : ¬((x.intersected ⟨0, day⟩).intersected ⟨day + kDay, kWeek⟩).toBool =
                  true := by
                rw [toBool_intersected, heq]
                simp only [kDay]
                omega
              rw [if_pos hfirst, if_neg hsecond, if_pos hbefore, hnext, heq, List.append_assoc]
            · have hfirst : ¬(x.intersected ⟨0, day⟩).toBool = true := by
                rw [toBool_intersected]
                dsimp only
                omega
              rw [if_neg hfirst, if_neg hbefore]
              by_cases hafter : day + kDay < x.end_
              · have hsecond : (x.intersected ⟨day + kDay, kWeek⟩).toBool = true := by
                  rw [toBool_intersected]
                  dsimp only
                  omega
                have heq : x.intersected ⟨day + kDay, kWeek⟩ = ⟨day + kDay, x.end_⟩ := by
                  rw [intersected_eq hsecond]
                  dsimp only
                  congr 1 <;> omega
                rw [if_pos hsecond, if_pos hafter, hnext, heq, List.append_assoc]
              · have hsecond : ¬(x.intersected ⟨day + kDay, kWeek⟩).toBool = true := by
                  rw [toBool_intersected]
                  dsimp only
                  omega
                rw [if_neg hsecond, if_neg hafter, hnext, List.nil_append]
          · rintro ⟨hearly, hcase⟩
            refine hkept ⟨hearly, hcase.imp_right fun hspan => ?_⟩
            obtain ⟨hday, hfirst, hwrap⟩ := hspan
            have hfirst := hfirst.trans (hzero.mp hday)
            rw [hback' hfirst] at hwrap
            exact ⟨hzero.mp hday, hfirst, hwrap⟩

section CutDay

variable {day backEnd : Int}

/-- Outside the day, what comes after it is lost where the interval began before it. -/
theorem covers_cutDay_outside (ht : ¬(day ≤ t ∧ t < day + kDay)) :
    Covers start end_ (cutDay day backEnd x) t ↔
      (x.start ≤ t ∧ t < x.end_) ∧ ¬(day + kDay ≤ t ∧ x.start < day) := by
  have hearly : 0 < kInNextDayMax ∧ kInNextDayMax < kDay := by decide
  unfold cutDay
  split
  · simp only [covers_cons, covers_nil, or_false]
    omega
  · split
    · simp only [covers_cons, covers_nil, or_false]
      omega
    · split
      · simp only [covers_cons, covers_nil, or_false]
        omega
      · split
        · simp only [covers_cons, covers_nil, or_false]
          omega
        · simp only [covers_nil, false_iff]
          omega

/-- Inside the day, only an interval stays that ends early. -/
theorem covers_cutDay_inside (hle : day ≤ t) (hlt : t < day + kDay) :
    Covers start end_ (cutDay day backEnd x) t ↔ (x.start ≤ t ∧ t < x.end_) ∧
      x.end_ ≤ day + kInNextDayMax ∧
      (x.start < day ∨ (day = 0 ∧ x.start = 0 ∧ kWeek ≤ backEnd)) := by
  unfold cutDay
  split
  · simp only [covers_cons, covers_nil, or_false]
    omega
  · split
    · next hkept =>
        simp only [covers_cons, covers_nil, or_false]
        exact (and_iff_left hkept).symm
    · next hkept =>
        refine iff_of_false ?_ fun h => hkept h.2
        split
        · simp only [covers_cons, covers_nil, or_false]
          omega
        · split
          · simp only [covers_cons, covers_nil, or_false]
            omega
          · exact covers_nil

theorem inWeek_cutDay (h : 0 ≤ x.start ∧ x.end_ ≤ kWeek) (hday : day ≤ kWeek) :
    InWeek (cutDay day backEnd x) := by
  have hlong : 0 < kDay := by decide
  unfold cutDay
  split
  · simpa [InWeek] using h
  · split
    · simpa [InWeek] using h
    · split
      · simp only [InWeek, List.mem_singleton, forall_eq]
        omega
      · split
        · simp only [InWeek, List.mem_singleton, forall_eq]
          omega
        · simp [InWeek]

end CutDay

/-! ## The schedule without the day -/

/-- The seconds of a schedule, from the start of the week to the end of it. -/
structure Scheduled (intervals list : List WorkingInterval) : Prop where
  canonical : Canonical start end_ list
  inWeek : InWeek list
  covers : ∀ t, 0 ≤ t → t < kWeek → (Covers start end_ list t ↔ CoversWeekly intervals t)

theorem scheduled_normalized (sort : SortBy start) (h : Bounded intervals) :
    Scheduled intervals (normalized sort intervals) :=
  ⟨canonical_normalized, inWeek_normalized h, fun _ => covers_normalized h⟩

/-- The second before the week is the last one of it. -/
theorem coversWeekly_pred : CoversWeekly intervals (-1) ↔ CoversWeekly intervals (kWeek - 1) := by
  constructor
  · rintro ⟨weeks, h⟩
    refine ⟨weeks - 1, ?_⟩
    rwa [show kWeek - 1 + (weeks - 1) * kWeek = -1 + weeks * kWeek by rw [Int.sub_mul]; omega]
  · rintro ⟨weeks, h⟩
    refine ⟨weeks + 1, ?_⟩
    rwa [show -1 + (weeks + 1) * kWeek = kWeek - 1 + weeks * kWeek by rw [Int.add_mul]; omega]

namespace Scheduled

/-- The last interval goes on to the end of the week where the week before ends open. -/
theorem wrap_iff (h : Scheduled intervals list) (hx : x ∈ list) :
    kWeek ≤ (list.getLastD {}).end_ ↔ CoversWeekly intervals (-1) := by
  obtain ⟨front, last, hlast⟩ := (List.eq_nil_or_concat list).resolve_left (List.ne_nil_of_mem hx)
  rw [List.concat_eq_append] at hlast
  subst hlast
  obtain ⟨-, hone, hbefore⟩ := canonical_append.mp h.canonical
  have hlt := (canonical_cons.mp hone).1
  have hend := (h.inWeek last (by simp)).2
  rw [List.getLastD_concat, coversWeekly_pred, ← h.covers _ (by decide) (by omega)]
  constructor
  · intro hle
    exact ⟨last, by simp, by omega, by omega⟩
  · rintro ⟨y, hy, hle, hgt⟩
    rcases List.mem_append.mp hy with hy | hy
    · have hsep := hbefore y hy last (List.mem_singleton_self last)
      omega
    · rw [List.mem_singleton.mp hy] at hgt
      omega

/-- An interval that holds the start of the day began before it where the second before is
covered. -/
theorem early_iff (h : Scheduled intervals list) (hx : x ∈ list) {day : Int} (hday : 0 ≤ day)
    (hgt : day < x.end_) :
    x.start < day ∨ (day = 0 ∧ x.start = 0 ∧ kWeek ≤ (list.getLastD {}).end_) ↔
      x.start ≤ day ∧ CoversWeekly intervals (day - 1) := by
  rw [h.wrap_iff hx]
  obtain ⟨hstart, hend⟩ := h.inWeek x hx
  constructor
  · rintro (hlt | ⟨rfl, hzero, hwrap⟩)
    · exact ⟨hlt.le, (h.covers _ (by omega) (by omega)).mp ⟨x, hx, by omega, by omega⟩⟩
    · exact ⟨hzero.le, hwrap⟩
  · rintro ⟨hle, hbefore⟩
    rcases Int.lt_or_eq_of_le hle with hlt | heq
    · exact .inl hlt
    · by_cases hzero : day = 0
      · subst hzero
        exact .inr ⟨rfl, heq, hbefore⟩
      · rw [← h.covers _ (by omega) (by omega), ← heq] at hbefore
        exact absurd hbefore (h.canonical.not_covers_pred hx)

end Scheduled

/-- **What is left** of the week: the parts that the loop leaves of the intervals. -/
theorem covers_removeDayIntervals (h : Bounded intervals) (hday : 0 ≤ dayIndex)
    (hlast : dayIndex < 7) (ht : 0 ≤ t) (hlt : t < kWeek) :
    Covers start end_ (removeDayIntervals sort intervals dayIndex) t ↔
      ∃ x ∈ normalized sort intervals, Covers start end_ (cutDay (dayIndex * kDay)
        ((normalized sort intervals).getLastD {}).end_ x) t := by
  have hweek := scheduled_normalized sort h
  have hback : ∀ x ∈ (normalized sort intervals).head?, x.start = 0 →
      (([] ++ normalized sort intervals).getLastD x).end_ =
        ((normalized sort intervals).getLastD {}).end_ := fun x hx _ => by
    cases hlist : normalized sort intervals with
    | nil => simp [hlist] at hx
    | cons _ _ => rfl
  have hin : InWeek ((normalized sort intervals).flatMap
      (cutDay (dayIndex * kDay) ((normalized sort intervals).getLastD {}).end_)) := fun y hy => by
    obtain ⟨x, hx, hy⟩ := List.mem_flatMap.mp hy
    refine inWeek_cutDay (hweek.inWeek x hx) ?_ y hy
    simp only [kWeek, kDay]
    omega
  rw [removeDayIntervals, removeLoop_eq hday hweek.canonical hweek.inWeek hback, List.nil_append,
    covers_normalized hin.bounded ht hlt, coversWeekly_of_inWeek hin ht hlt, covers_flatMap]

/-- Clearing the day leaves the seconds of the other days as they are, and inside the day only those
of an interval that started on the previous day and ends early. -/
def ClearsOnlyDay (sort : SortBy start) (intervals : List WorkingInterval) (dayIndex : Int) : Prop :=
  let list := removeDayIntervals sort intervals dayIndex
  let day := dayIndex * kDay
  ∀ t, 0 ≤ t → t < kWeek →
    (¬(day ≤ t ∧ t < day + kDay) → (Covers start end_ list t ↔ CoversWeekly intervals t)) ∧
    (day ≤ t → t < day + kDay → Covers start end_ list t →
      ∃ a b, IsRun (CoversWeekly intervals) a b ∧ day - kDay ≤ a ∧ a < day ∧
        b ≤ day + kInNextDayMax ∧ a ≤ t ∧ t < b)

/-- The schedule goes on from the day before to the day after, without the week ending between. -/
def SpansDay (intervals : List WorkingInterval) (dayIndex : Int) : Prop :=
  0 < dayIndex ∧ dayIndex < 6 ∧
    ∀ t, dayIndex * kDay - 1 ≤ t → t ≤ dayIndex * kDay + kDay → CoversWeekly intervals t

/-- What ends early in the day began before the previous one. -/
def BeganEarlier (intervals : List WorkingInterval) (dayIndex : Int) : Prop :=
  (∀ t, dayIndex * kDay - kDay - 1 ≤ t → t ≤ dayIndex * kDay → CoversWeekly intervals t) ∧
    ∃ t, dayIndex * kDay < t ∧ t ≤ dayIndex * kDay + kInNextDayMax ∧ ¬CoversWeekly intervals t

theorem not_clearsOnlyDay_of_spansDay (h : Bounded intervals) (hspans : SpansDay intervals dayIndex) :
    ¬ClearsOnlyDay sort intervals dayIndex := by
  intro hclears
  obtain ⟨hfirst, hlast, hall⟩ := hspans
  have hpos : 0 < dayIndex * kDay ∧ dayIndex * kDay + kDay < kWeek := by
    simp only [kWeek, kDay]
    omega
  have hlong : 0 < kDay := by decide
  have hweek := scheduled_normalized sort h
  have hafter := ((hclears (dayIndex * kDay + kDay) (by omega) hpos.2).1 (by omega)).mpr
    (hall _ (by omega) le_rfl)
  rw [covers_removeDayIntervals h (by omega) (by omega) (by omega) hpos.2] at hafter
  obtain ⟨x, hx, hcut⟩ := hafter
  rw [covers_cutDay_outside (by omega)] at hcut
  obtain ⟨hin, hnot⟩ := hcut
  obtain ⟨y, hy, hle, hgt⟩ := hweek.canonical.mem_of_covers
    (s := dayIndex * kDay - 1) (t := dayIndex * kDay + kDay) (by omega) fun t hle hge =>
      (hweek.covers t (by omega) (by omega)).mpr (hall t hle hge)
  have heq := hweek.canonical.eq_of_mem hx hy hin ⟨by omega, hgt⟩
  rw [heq] at hnot
  omega

theorem not_clearsOnlyDay_of_beganEarlier (h : Bounded intervals) (hday : 0 ≤ dayIndex)
    (hlast : dayIndex < 7) (hbegan : BeganEarlier intervals dayIndex) :
    ¬ClearsOnlyDay sort intervals dayIndex := by
  intro hclears
  obtain ⟨hall, u, hgt, hle, hnot⟩ := hbegan
  have hearly : 0 < kInNextDayMax ∧ kInNextDayMax < kDay := by decide
  have hpos : 0 ≤ dayIndex * kDay ∧ dayIndex * kDay + kDay ≤ kWeek := by
    simp only [kWeek, kDay]
    omega
  have hweek := scheduled_normalized sort h
  obtain ⟨x, hx, hstart, hend⟩ :=
    (hweek.covers (dayIndex * kDay) (by omega) (by omega)).mpr (hall _ (by omega) le_rfl)
  have hstop : x.end_ ≤ u := by
    refine Int.not_lt.mp fun hlt => hnot ?_
    exact (hweek.covers u (by omega) (by omega)).mp ⟨x, hx, by omega, hlt⟩
  have hkept : Covers start end_ (removeDayIntervals sort intervals dayIndex) (dayIndex * kDay) := by
    rw [covers_removeDayIntervals h hday hlast (by omega) (by omega)]
    refine ⟨x, hx, ?_⟩
    rw [covers_cutDay_inside le_rfl (by omega), hweek.early_iff hx (by omega) hend]
    exact ⟨⟨hstart, hend⟩, by omega, hstart, hall _ (by omega) (by omega)⟩
  obtain ⟨a, b, hrun, hfirst, hbefore, -⟩ :=
    (hclears _ (by omega) (by omega)).2 le_rfl (by omega) hkept
  exact hrun.before (hall _ (by omega) (by omega))

/-- **Clearing one day** touches no other exactly where the schedule does not span the day, and what
ends early in it did not begin before the previous day. -/
theorem clearsOnlyDay_iff (sort : SortBy start) (intervals : List WorkingInterval) (dayIndex : Int)
    (h : Bounded intervals) (hday : 0 ≤ dayIndex) (hlast : dayIndex < 7) :
    ClearsOnlyDay sort intervals dayIndex ↔
      ¬SpansDay intervals dayIndex ∧ ¬BeganEarlier intervals dayIndex := by
  constructor
  · intro hclears
    exact ⟨fun hspans => not_clearsOnlyDay_of_spansDay h hspans hclears,
      fun hbegan => not_clearsOnlyDay_of_beganEarlier h hday hlast hbegan hclears⟩
  · rintro ⟨hspans, hbegan⟩ t ht hlt
    have hearly : 0 < kInNextDayMax ∧ kInNextDayMax < kDay := by decide
    have hpos : 0 ≤ dayIndex * kDay ∧ dayIndex * kDay + kDay ≤ kWeek := by
      simp only [kWeek, kDay]
      omega
    have hweek := scheduled_normalized sort h
    rw [covers_removeDayIntervals h hday hlast ht hlt]
    constructor
    · intro houtside
      rw [← hweek.covers t ht hlt]
      refine exists_congr fun x => and_congr_right fun hx => ?_
      rw [covers_cutDay_outside houtside]
      refine and_iff_left_of_imp fun hin hspan => hspans ⟨?_, ?_, fun u hle hge => ?_⟩
      · have hstart := (hweek.inWeek x hx).1
        simp only [kDay] at hspan
        omega
      · simp only [kWeek, kDay] at hspan hlt
        omega
      · have hstart := (hweek.inWeek x hx).1
        exact (hweek.covers u (by omega) (by omega)).mp ⟨x, hx, by omega, by omega⟩
    · rintro hle hgt ⟨x, hx, hcut⟩
      rw [covers_cutDay_inside hle hgt] at hcut
      obtain ⟨hin, hend, hkept⟩ := hcut
      rw [hweek.early_iff hx hpos.1 (by omega)] at hkept
      obtain ⟨hstart, hbefore⟩ := hkept
      have hstop : ¬CoversWeekly intervals x.end_ := by
        rw [← hweek.covers _ (by omega) (by omega)]
        exact hweek.canonical.not_covers_hi hx
      have hinside : ∀ u, dayIndex * kDay ≤ u → u < x.end_ → CoversWeekly intervals u :=
        fun u hu hux => (hweek.covers u (by omega) (by omega)).mp ⟨x, hx, by omega, hux⟩
      -- the run that ends with the interval started at most a day before this one
      obtain ⟨p, hfrom, hto, hp⟩ : ∃ p, dayIndex * kDay - kDay - 1 ≤ p ∧ p ≤ dayIndex * kDay ∧
          ¬CoversWeekly intervals p := by
        by_contra hnone
        push Not at hnone
        exact hbegan ⟨hnone, x.end_, by omega, hend, hstop⟩
      have hstarted := hinside _ le_rfl (by omega)
      have hne : p ≠ dayIndex * kDay := fun heq => hp (heq ▸ hstarted)
      obtain ⟨a, hpa, haday, hnot, hall⟩ :=
        exists_run_start (P := CoversWeekly intervals) (by omega) hp hstarted
      have hnotday : a ≠ dayIndex * kDay := fun heq => hnot (heq ▸ hbefore)
      refine ⟨a, x.end_, ⟨fun u hau hux => ?_, hnot, hstop⟩, by omega, by omega, hend, by omega,
        hin.2⟩
      rcases lt_or_ge u (dayIndex * kDay) with hearlier | hlater
      · exact hall u hau hearlier.le
      · exact hinside u hlater hux

/-- Three days on end: without the second, the third is lost too. -/
theorem not_clearsOnlyDay : ¬ClearsOnlyDay (.merge start) [⟨0, 3 * kDay⟩] 1 := by
  refine not_clearsOnlyDay_of_spansDay (by simp [Bounded, kWeek, kDay]) ⟨by decide, by decide, ?_⟩
  intro t hle hge
  simp only [kDay] at hle hge
  exact ⟨0, _, List.mem_singleton_self _, by dsimp only; omega, by simp only [kDay]; omega⟩

/-- Without its second day, a schedule of a night and an afternoon keeps the night. -/
theorem clearsOnlyDay_night :
    ClearsOnlyDay (.merge start) [⟨136400, 146400⟩, ⟨80000, 104400⟩] 1 := by
  have hgap : ¬CoversWeekly [⟨136400, 146400⟩, ⟨80000, 104400⟩] 79999 := by
    rintro ⟨weeks, x, hx, hle, hlt⟩
    simp only [List.mem_cons, List.not_mem_nil, or_false] at hx
    rcases hx with rfl | rfl <;> simp only [kWeek, kDay] at hle hlt <;> omega
  have hafter : ¬CoversWeekly [⟨136400, 146400⟩, ⟨80000, 104400⟩] 104400 := by
    rintro ⟨weeks, x, hx, hle, hlt⟩
    simp only [List.mem_cons, List.not_mem_nil, or_false] at hx
    rcases hx with rfl | rfl <;> simp only [kWeek, kDay] at hle hlt <;> omega
  refine (clearsOnlyDay_iff (.merge start) _ 1 (by simp [Bounded, kWeek, kDay]) (by decide)
    (by decide)).mpr ⟨fun hspans => ?_, fun hbegan => ?_⟩
  · exact hafter (hspans.2.2 104400 (by decide) (by decide))
  · exact hgap (hbegan.1 79999 (by decide) (by decide))

end Data

end MessengerClient
