import MessengerClient.WorkingIntervals

/-!
# MessengerClient.WorkingIntervals.Extract

`ExtractDayIntervals`: the part of a weekly schedule that the editor shows for one day.

Three windows of the schedule around the day are put over each other, counted from the start of
the day, and then cut to the day.
-/

namespace MessengerClient

namespace Data

open WorkingInterval

/-- What the loop of `ExtractDayIntervals` takes of an interval. -/
def dayParts (dayIndex : Int) (interval : WorkingInterval) : List WorkingInterval :=
  let now := interval.intersected ⟨(dayIndex - 1) * kDay, (dayIndex + 2) * kDay⟩
  let after := interval.intersected ⟨(dayIndex + 6) * kDay, (dayIndex + 9) * kDay⟩
  let before := interval.intersected ⟨(dayIndex - 8) * kDay, (dayIndex - 5) * kDay⟩
  (if now.toBool then [now.shifted (-dayIndex * kDay)] else []) ++
  (if after.toBool then [after.shifted (-(dayIndex + 7) * kDay)] else []) ++
  (if before.toBool then [before.shifted (-(dayIndex - 7) * kDay)] else [])

def outside (interval : WorkingInterval) : Bool :=
  interval.end_ ≤ 0 || interval.start ≥ kDay

/-- The rules for the last interval. -/
def trimBack (list : List WorkingInterval) : List WorkingInterval :=
  match list.getLast? with
  | none => list
  | some back =>
      if back.start ≤ 0 ∧ back.end_ ≥ kDay then
        list.dropLast ++ [⟨0, kDay⟩]
      else if back.end_ > kDay + kInNextDayMax then
        list.dropLast ++ [back.intersected ⟨0, kDay⟩]
      else
        list

/-- The rules for the first interval. -/
def trimFront : List WorkingInterval → List WorkingInterval
  | [] => []
  | front :: rest =>
      if front.start ≤ 0 then
        if front.start < 0 ∧ front.end_ ≤ kInNextDayMax ∧ front.start > -kDay then
          rest
        else
          let front := front.intersected ⟨0, kDay⟩
          if front.toBool then front :: rest else rest
      else
        front :: rest

def extractDayIntervals (sort : SortBy start) (intervals : List WorkingInterval)
    (dayIndex : Int) : Option (List WorkingInterval) :=
  if 0 ≤ dayIndex ∧ dayIndex < 7 then
    let result := normalized sort (intervals.flatMap (dayParts dayIndex))
    let list := result.filter fun interval => !outside interval
    some (trimFront (trimBack list))
  else
    none

variable {sort : SortBy start} {intervals list : List WorkingInterval} {dayIndex s : Int}
  {x : WorkingInterval}

/-! ## The windows -/

theorem covers_part {window : WorkingInterval} {offset : Int} :
    Covers start end_ (if (x.intersected window).toBool then
      [(x.intersected window).shifted offset] else []) s ↔
      (x.start ≤ s - offset ∧ s - offset < x.end_) ∧
        window.start ≤ s - offset ∧ s - offset < window.end_ := by
  rw [← mem_intersected]
  split
  · simp only [covers_cons, covers_nil, or_false, shifted]
    omega
  · next h =>
      rw [toBool_iff] at h
      simp only [covers_nil, false_iff]
      omega

theorem mem_part {window y : WorkingInterval} {offset : Int}
    (hy : y ∈ if (x.intersected window).toBool then
      [(x.intersected window).shifted offset] else []) :
    window.start + offset ≤ y.start ∧ y.end_ ≤ window.end_ + offset := by
  split at hy
  · next h =>
      rw [List.mem_singleton.mp hy, intersected_eq h]
      simp only [shifted]
      omega
  · cases hy

/-- Around the day, the parts of an interval cover what it covers counted in weeks. -/
theorem covers_dayParts (h : 0 ≤ x.start ∧ x.end_ ≤ kWeek + kDay) (hday : 0 ≤ dayIndex)
    (hlast : dayIndex < 7) (hs : -kDay ≤ s) (hend : s < 2 * kDay) :
    Covers start end_ (dayParts dayIndex x) s ↔ CoversWeekly [x] (dayIndex * kDay + s) := by
  simp only [dayParts, covers_append, covers_part, coversWeekly_singleton]
  simp only [kWeek, kDay] at *
  constructor
  · rintro ((h | h) | h)
    · exact ⟨0, by omega⟩
    · exact ⟨1, by omega⟩
    · exact ⟨-1, by omega⟩
  · rintro ⟨weeks, hle, hlt⟩
    have hcases : weeks = 0 ∨ weeks = 1 ∨ weeks = -1 := by omega
    rcases hcases with rfl | rfl | rfl
    · exact .inl (.inl (by omega))
    · exact .inl (.inr (by omega))
    · exact .inr (by omega)

theorem mem_dayParts {y : WorkingInterval} (hy : y ∈ dayParts dayIndex x) :
    -kDay ≤ y.start ∧ y.end_ ≤ 2 * kDay := by
  simp only [dayParts, List.mem_append] at hy
  rcases hy with (hy | hy) | hy
  · have := mem_part hy
    simp only [kDay] at *
    omega
  · have := mem_part hy
    simp only [kDay] at *
    omega
  · have := mem_part hy
    simp only [kDay] at *
    omega

theorem coversWeekly_iff {t : Int} :
    CoversWeekly intervals t ↔ ∃ x ∈ intervals, CoversWeekly [x] t := by
  simp only [coversWeekly_singleton]
  simp only [CoversWeekly, Covers]
  constructor
  · rintro ⟨weeks, x, hx, hin⟩
    exact ⟨x, hx, weeks, hin⟩
  · rintro ⟨x, hx, weeks, hin⟩
    exact ⟨weeks, x, hx, hin⟩

/-- The schedule around a day, counted from its start. -/
structure Around (intervals : List WorkingInterval) (dayIndex : Int)
    (list : List WorkingInterval) : Prop where
  canonical : Canonical start end_ list
  bounds : ∀ x ∈ list, -kDay ≤ x.start ∧ x.end_ ≤ 2 * kDay
  covers : ∀ s, -kDay ≤ s → s < 2 * kDay →
    (Covers start end_ list s ↔ CoversWeekly intervals (dayIndex * kDay + s))

/-- **The windows** make up the schedule around the day: `normalized` moves nothing here. -/
theorem around_normalized (sort : SortBy start) (h : Bounded intervals) (hday : 0 ≤ dayIndex)
    (hlast : dayIndex < 7) :
    Around intervals dayIndex (normalized sort (intervals.flatMap (dayParts dayIndex))) := by
  have hbounds : ∀ x ∈ sortAndMerge sort (intervals.flatMap (dayParts dayIndex)),
      -kDay ≤ x.start ∧ x.end_ ≤ 2 * kDay := fun x hx => by
    obtain ⟨y, hy, z, hz, hstart, hend⟩ :=
      mem_between canonical_sortAndMerge (fun _ => covers_sortAndMerge.mp) hx
    obtain ⟨_, -, hy⟩ := List.mem_flatMap.mp hy
    obtain ⟨_, -, hz⟩ := List.mem_flatMap.mp hz
    exact ⟨(mem_dayParts hy).1.trans hstart, hend.trans (mem_dayParts hz).2⟩
  have heq : normalized sort (intervals.flatMap (dayParts dayIndex)) =
      sortAndMerge sort (intervals.flatMap (dayParts dayIndex)) := by
    rw [normalized, moveTailToFront_of_le, sortAndMerge_of_canonical canonical_sortAndMerge]
    exact fun x hx => (hbounds x (List.mem_of_getLast? hx)).2.trans (by decide)
  rw [heq]
  refine ⟨canonical_sortAndMerge, hbounds, fun s hs hend => ?_⟩
  rw [covers_sortAndMerge, covers_flatMap, coversWeekly_iff]
  exact exists_congr fun x => and_congr_right fun hx => covers_dayParts (h x hx) hday hlast hs hend

/-- An interval that began on the previous day, less than a day ago, and ends early. -/
def LeadingInterval (x : WorkingInterval) : Prop :=
  -kDay < x.start ∧ x.start < 0 ∧ x.end_ ≤ kInNextDayMax

/-- Such an interval of the schedule around a day is a run of the weekly schedule. -/
theorem Around.leading_iff (h : Around intervals dayIndex list) :
    (∃ x ∈ list, LeadingInterval x ∧ x.start ≤ s ∧ s < x.end_) ↔
      ∃ a b, IsRun (CoversWeekly intervals) a b ∧ (dayIndex - 1) * kDay < a ∧
        a < dayIndex * kDay ∧ b ≤ dayIndex * kDay + kInNextDayMax ∧
        a ≤ dayIndex * kDay + s ∧ dayIndex * kDay + s < b := by
  have hcovers : ∀ t, dayIndex * kDay - kDay ≤ t → t < dayIndex * kDay + 2 * kDay →
      (Covers start end_ list (t - dayIndex * kDay) ↔ CoversWeekly intervals t) := fun t hle hlt => by
    rw [h.covers _ (by omega) (by omega),
      show dayIndex * kDay + (t - dayIndex * kDay) = t by omega]
  have hearly : kInNextDayMax < 2 * kDay := by decide
  rw [Int.sub_mul, Int.one_mul]
  generalize dayIndex * kDay = day at hcovers
  constructor
  · rintro ⟨x, hx, ⟨hgt, hneg, hend⟩, hle, hlt⟩
    refine ⟨day + x.start, day + x.end_, ⟨fun t hat htb => ?_, fun hnot => ?_, fun hnot => ?_⟩,
      by omega, by omega, by omega, by omega, by omega⟩
    · exact (hcovers t (by omega) (by omega)).mp ⟨x, hx, by omega, by omega⟩
    · rw [← hcovers _ (by omega) (by omega),
        show day + x.start - 1 - day = x.start - 1 by omega] at hnot
      exact h.canonical.not_covers_pred hx hnot
    · rw [← hcovers _ (by omega) (by omega), show day + x.end_ - day = x.end_ by omega] at hnot
      exact h.canonical.not_covers_hi hx hnot
  · rintro ⟨a, b, hrun, hgt, hlt, hend, hle, hsb⟩
    obtain ⟨x, hx, hstart, hstop⟩ := h.canonical.mem_of_covers (s := a - day) (t := b - 1 - day)
      (by omega) fun t hat htb => by
        rw [show t = t + day - day by omega]
        exact (hcovers _ (by omega) (by omega)).mpr (hrun.all _ (by omega) (by omega))
    have hfirst : x.start = a - day := by
      by_contra hne
      refine hrun.before ((hcovers _ (by omega) (by omega)).mp ⟨x, hx, ?_, ?_⟩) <;> omega
    have hlast : x.end_ = b - day := by
      by_contra hne
      refine hrun.after ((hcovers _ (by omega) (by omega)).mp ⟨x, hx, ?_, ?_⟩) <;> omega
    exact ⟨x, hx, ⟨by omega, by omega, by omega⟩, by omega, by omega⟩

/-! ## Cutting to the day -/

/-- What is in the day too. -/
def MeetsDay (list : List WorkingInterval) : Prop := ∀ x ∈ list, 0 < x.end_ ∧ x.start < kDay

theorem meetsDay_filter : MeetsDay (list.filter fun x => !outside x) := fun x hx => by
  have hinside := (List.mem_filter.mp hx).2
  simp only [outside, Bool.not_eq_true', Bool.or_eq_false_iff, decide_eq_false_iff_not] at hinside
  omega

theorem mem_filter_outside (hmeets : 0 < x.end_ ∧ x.start < kDay) :
    x ∈ list.filter (fun x => !outside x) ↔ x ∈ list := by
  rw [List.mem_filter]
  refine and_iff_left ?_
  simp only [outside, Bool.not_eq_true', Bool.or_eq_false_iff, decide_eq_false_iff_not]
  omega

/-- A list that shows the same of the day as another one. -/
structure Trimmed (list list' : List WorkingInterval) : Prop where
  canonical : Canonical start end_ list'
  meets : MeetsDay list'
  covers : ∀ s, 0 ≤ s → s < kDay → (Covers start end_ list' s ↔ Covers start end_ list s)

theorem trimmed_append {front : List WorkingInterval} {back back' : WorkingInterval}
    (h : Canonical start end_ (front ++ [back])) (hmeets : MeetsDay (front ++ [back]))
    (hlt : back'.start < back'.end_) (hmeets' : 0 < back'.end_ ∧ back'.start < kDay)
    (hstart : back.start ≤ back'.start ∨ back.start ≤ 0)
    (hcovers : ∀ s, 0 ≤ s → s < kDay →
      (back'.start ≤ s ∧ s < back'.end_ ↔ back.start ≤ s ∧ s < back.end_)) :
    Trimmed (front ++ [back]) (front ++ [back']) := by
  obtain ⟨hfront, -, hbefore⟩ := canonical_append.mp h
  obtain ⟨hmeetsfront, -⟩ := List.forall_mem_append.mp hmeets
  refine ⟨canonical_append.mpr ⟨hfront, ?_, fun x hx y hy => ?_⟩, ?_, fun s hs hend => ?_⟩
  · exact canonical_cons.mpr ⟨hlt, by simp, canonical_nil⟩
  · rw [List.mem_singleton.mp hy]
    have hsep := hbefore x hx back (List.mem_singleton_self back)
    have hpos := (hmeetsfront x hx).1
    omega
  · exact List.forall_mem_append.mpr ⟨hmeetsfront, List.forall_mem_singleton.mpr hmeets'⟩
  · simp only [covers_append, covers_cons, covers_nil, or_false, hcovers s hs hend]

/-- **The last interval** is cut to the day, or ends early on the next one. -/
theorem trimBack_spec (h : Canonical start end_ list) (hmeets : MeetsDay list) :
    Trimmed list (trimBack list) ∧ (∀ x ∈ trimBack list, x.end_ ≤ kDay + kInNextDayMax) ∧
      ∀ x, LeadingInterval x → (x ∈ trimBack list ↔ x ∈ list) := by
  have hday : kDay = 86400 := rfl
  have hearly : kInNextDayMax = 21600 := rfl
  unfold trimBack
  split
  · next hnone =>
      rw [List.getLast?_eq_none_iff.mp hnone]
      exact ⟨⟨canonical_nil, nofun, fun _ _ _ => Iff.rfl⟩, nofun, fun _ _ => Iff.rfl⟩
  · next back hback =>
      obtain ⟨front, rfl⟩ := List.getLast?_eq_some_iff.mp hback
      obtain ⟨-, hlast, hbefore⟩ := canonical_append.mp h
      have hlt := (canonical_cons.mp hlast).1
      obtain ⟨hfront, hin⟩ := List.forall_mem_append.mp hmeets
      rw [List.forall_mem_singleton] at hin
      have hends : ∀ x ∈ front, x.end_ ≤ kDay + kInNextDayMax := fun x hx => by
        have hsep := hbefore x hx back (List.mem_singleton_self back)
        omega
      -- an interval that replaces the last one and ends with the day is not a leading one
      have hleading : ∀ back' : WorkingInterval, kDay ≤ back.end_ → kDay ≤ back'.end_ →
          ∀ x, LeadingInterval x → (x ∈ front ++ [back'] ↔ x ∈ front ++ [back]) := by
        intro back' hend hend' x hx
        simp only [List.mem_append, List.mem_singleton]
        have hne : x ≠ back := fun heq => by
          have := hx.2.2
          rw [heq] at this
          omega
        have hne' : x ≠ back' := fun heq => by
          have := hx.2.2
          rw [heq] at this
          omega
        simp [hne, hne']
      rw [List.dropLast_concat]
      split
      · next hall =>
          refine ⟨trimmed_append h hmeets (by decide) (by decide) (.inr hall.1) fun s hs hend => ?_,
            List.forall_mem_append.mpr ⟨hends, by simp [hearly, hday]⟩,
            hleading _ hall.2 le_rfl⟩
          dsimp only
          omega
      · split
        · next hlong =>
            have htail : (back.intersected ⟨0, kDay⟩).toBool = true := by
              rw [toBool_intersected]
              dsimp only
              omega
            rw [intersected_eq htail]
            refine ⟨trimmed_append h hmeets ?_ ?_ (.inl ?_) fun s hs hend => ?_,
              List.forall_mem_append.mpr ⟨hends, ?_⟩, hleading _ (by omega) ?_⟩ <;>
              simp only [List.mem_singleton, forall_eq] <;> omega
        · next hshort =>
            exact ⟨⟨h, hmeets, fun _ _ _ => Iff.rfl⟩,
              List.forall_mem_append.mpr ⟨hends, by simpa using hshort⟩, fun _ _ => Iff.rfl⟩

/-- **The first interval** is cut to the day, or left out where it is a leading one. -/
theorem trimFront_spec (h : Canonical start end_ list) (hmeets : MeetsDay list)
    (hends : ∀ x ∈ list, x.end_ ≤ kDay + kInNextDayMax) :
    Canonical start end_ (trimFront list) ∧
      (∀ x ∈ trimFront list, 0 ≤ x.start ∧ x.end_ ≤ kDay + kInNextDayMax) ∧
      ∀ s, 0 ≤ s → s < kDay → (Covers start end_ (trimFront list) s ↔ Covers start end_ list s ∧
        ¬∃ x ∈ list, LeadingInterval x ∧ x.start ≤ s ∧ s < x.end_) := by
  have hday : kDay = 86400 := rfl
  cases list with
  | nil => exact ⟨canonical_nil, nofun, fun s _ _ => by simp [trimFront]⟩
  | cons front rest =>
      obtain ⟨hlt, hbefore, hrest⟩ := canonical_cons.mp h
      obtain ⟨hpos, hin⟩ := hmeets front List.mem_cons_self
      have hlater : ∀ x ∈ rest, 0 ≤ x.start ∧ x.end_ ≤ kDay + kInNextDayMax := fun x hx =>
        ⟨(hpos.trans (hbefore x hx)).le, hends x (List.mem_cons_of_mem front hx)⟩
      have hfirst : ∀ x ∈ front :: rest, LeadingInterval x → x = front := fun x hx hleading => by
        rcases List.mem_cons.mp hx with heq | hx
        · exact heq
        · exact absurd (hlater x hx).1 (not_le_of_gt hleading.2.1)
      rw [trimFront]
      split
      · next hstart =>
          split
          · next hleading =>
              refine ⟨hrest, hlater, fun s hs hend => ?_⟩
              rw [h.covers_tail]
              refine and_congr_right fun _ => ⟨?_, fun hnot => ?_⟩
              · rintro hle ⟨x, hx, hx', -, hxs⟩
                rw [hfirst x hx hx'] at hxs
                omega
              · by_contra hgt
                exact hnot ⟨front, List.mem_cons_self, ⟨hleading.2.2, hleading.1, hleading.2.1⟩,
                  by omega, by omega⟩
          · next hkept =>
              have hcut : (front.intersected ⟨0, kDay⟩).toBool = true := by
                rw [toBool_intersected]
                dsimp only
                omega
              have hnone : ∀ x ∈ front :: rest, ¬LeadingInterval x := fun x hx hleading => by
                rw [hfirst x hx hleading] at hleading
                exact hkept ⟨hleading.2.1, hleading.2.2, hleading.1⟩
              dsimp only
              rw [if_pos hcut, intersected_eq hcut]
              refine ⟨canonical_cons.mpr ⟨?_, fun x hx => ?_, hrest⟩, ?_, fun s hs hend => ?_⟩
              · dsimp only
                omega
              · have hsep := hbefore x hx
                dsimp only
                omega
              · refine List.forall_mem_cons.mpr ⟨?_, hlater⟩
                have hfront := hends front List.mem_cons_self
                dsimp only
                omega
              · rw [and_iff_left fun ⟨x, hx, hleading, _⟩ => hnone x hx hleading]
                simp only [covers_cons]
                refine or_congr_left ?_
                omega
      · next hstart =>
          have hnone : ∀ x ∈ front :: rest, ¬LeadingInterval x := fun x hx hleading => by
            rw [hfirst x hx hleading] at hleading
            exact hstart hleading.2.1.le
          refine ⟨h, List.forall_mem_cons.mpr ⟨?_, hlater⟩, fun s _ _ => ?_⟩
          · exact ⟨(not_le.mp hstart).le, hends front List.mem_cons_self⟩
          · rw [and_iff_left fun ⟨x, hx, hleading, _⟩ => hnone x hx hleading]

/-- **The day editor shows the schedule** of the day, and nothing of an interval that began on the
previous day and ends early on this one. -/
theorem extractDayIntervals_spec (sort : SortBy start) (intervals : List WorkingInterval)
    (dayIndex : Int) (h : Bounded intervals) (hday : 0 ≤ dayIndex) (hlast : dayIndex < 7) :
    ∃ list, extractDayIntervals sort intervals dayIndex = some list ∧
      (∀ x ∈ list, 0 ≤ x.start ∧ x.end_ ≤ kDay + kInNextDayMax) ∧
      list.Pairwise (fun x y => x.start < y.start ∧ x.end_ < y.start) ∧
      ∀ s, 0 ≤ s → s < kDay → (Covers start end_ list s ↔
        CoversWeekly intervals (dayIndex * kDay + s) ∧
        ¬∃ a b, IsRun (CoversWeekly intervals) a b ∧ (dayIndex - 1) * kDay < a ∧
          a < dayIndex * kDay ∧ b ≤ dayIndex * kDay + kInNextDayMax ∧
          a ≤ dayIndex * kDay + s ∧ dayIndex * kDay + s < b) := by
  have haround := around_normalized sort h hday hlast
  have hcanonical := haround.canonical.filter fun x => !outside x
  obtain ⟨hback, hends, hleading⟩ := trimBack_spec hcanonical meetsDay_filter
  obtain ⟨hfront, hbounds, hcovers⟩ := trimFront_spec hback.canonical hback.meets hends
  refine ⟨_, if_pos ⟨hday, hlast⟩, hbounds, ?_, fun s hs hend => ?_⟩
  · refine hfront.apart.imp_of_mem fun {x y} hx _ hlt => ⟨?_, hlt⟩
    exact (hfront.lt x hx).trans hlt
  · have hbetween : -kDay ≤ s ∧ s < 2 * kDay := by
      simp only [kDay] at hend ⊢
      omega
    have hinside : ∀ x : WorkingInterval, x.start ≤ s ∧ s < x.end_ →
        0 < x.end_ ∧ x.start < kDay := fun x hx => by omega
    rw [hcovers s hs hend, hback.covers s hs hend, ← haround.covers s hbetween.1 hbetween.2,
      ← haround.leading_iff]
    refine and_congr ?_ (not_congr ?_)
    · exact exists_congr fun x => and_congr_left fun hx => mem_filter_outside (hinside x hx)
    · refine exists_congr fun x => and_congr_left fun hx => ?_
      rw [hleading x hx.1, mem_filter_outside (hinside x hx.2)]

/-- Monday shows its afternoon, and nothing of a Sunday night that ends at five. -/
theorem extractDayIntervals_monday :
    ∃ list, extractDayIntervals (.merge start)
        [⟨136400, 146400⟩, ⟨80000, 104400⟩] 1 = some list ∧
      Covers start end_ list 50000 ∧ ¬Covers start end_ list 17999 := by
  have hgap : ∀ t, t = 79999 ∨ t = 104400 →
      ¬CoversWeekly [⟨136400, 146400⟩, ⟨80000, 104400⟩] t := by
    rintro t ht ⟨weeks, x, hx, hle, hlt⟩
    simp only [List.mem_cons, List.not_mem_nil, or_false] at hx
    rcases hx with rfl | rfl <;> simp only [kWeek, kDay] at hle hlt <;> omega
  obtain ⟨list, hlist, -, -, hcovers⟩ := extractDayIntervals_spec (.merge start)
    [⟨136400, 146400⟩, ⟨80000, 104400⟩] 1 (by simp [Bounded, kWeek, kDay]) (by decide) (by decide)
  refine ⟨list, hlist, ?_, ?_⟩
  · rw [hcovers 50000 (by decide) (by decide)]
    refine ⟨⟨0, _, List.mem_cons_self, by decide, by decide⟩, ?_⟩
    rintro ⟨a, b, hrun, -, hlt, -, -, hstop⟩
    simp only [kDay] at hlt hstop
    exact hgap 104400 (.inr rfl) (hrun.all _ (by omega) (by omega))
  · rw [hcovers 17999 (by decide) (by decide)]
    refine fun hcover => hcover.2 ⟨80000, 104400, ⟨fun t hle hlt => ?_, ?_, ?_⟩, by decide⟩
    · exact ⟨0, _, List.mem_cons_of_mem _ List.mem_cons_self, by dsimp only; omega,
        by dsimp only; omega⟩
    · exact hgap _ (.inl rfl)
    · exact hgap _ (.inr rfl)

end Data

end MessengerClient
