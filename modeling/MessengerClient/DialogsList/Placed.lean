import MessengerClient.DialogsList
import MessengerClient.Lib.Descending

/-!
# MessengerClient.DialogsList.Placed

Every row knows its index and its top, the rows are those under the keys, and only rows that
are there are pending, whatever is done to the list.
-/

namespace MessengerClient

namespace DialogsList

variable {κ : Type} {row row' : Pointer → Row κ} {p : Pointer}
  {ps qs : List Pointer} {index top : Nat}

/-! ## Rows from one index and one top on -/

def total (row : Pointer → Row κ) (ps : List Pointer) : Nat :=
  (ps.map fun p => (row p).height).sum

def Placed (row : Pointer → Row κ) : List Pointer → Nat → Nat → Prop
  | [], _, _ => True
  | p :: ps, index, top =>
      (row p).index = index ∧ (row p).top = top ∧
        Placed row ps (index + 1) (top + (row p).height)

@[simp] theorem total_nil : total row [] = 0 := rfl

@[simp] theorem total_cons : total row (p :: ps) = (row p).height + total row ps := rfl

@[simp] theorem total_append : total row (ps ++ qs) = total row ps + total row qs := by
  simp [total]

theorem total_perm (h : ps.Perm qs) : total row ps = total row qs := (h.map _).sum_eq

theorem total_congr (h : ∀ p ∈ ps, (row' p).height = (row p).height) :
    total row' ps = total row ps := congrArg List.sum (List.map_congr_left h)

theorem placed_append : Placed row (ps ++ qs) index top ↔
    Placed row ps index top ∧ Placed row qs (index + ps.length) (top + total row ps) := by
  induction ps generalizing index top with
  | nil => simp [Placed]
  | cons p ps ih =>
      simp only [List.cons_append, Placed, ih, and_assoc, List.length_cons, total_cons]
      rw [Nat.add_assoc index, Nat.add_comm 1, Nat.add_assoc top]

theorem Placed.congr (h : Placed row ps index top) (hsame : ∀ p ∈ ps, row' p = row p) :
    Placed row' ps index top := by
  induction ps generalizing index top with
  | nil => trivial
  | cons p ps ih =>
      obtain ⟨hindex, htop, hrest⟩ := h
      have hp := hsame p List.mem_cons_self
      refine ⟨hp ▸ hindex, hp ▸ htop, ?_⟩
      rw [hp]
      exact ih hrest fun q hq => hsame q (List.mem_cons_of_mem _ hq)

/-- **The index of a row, and its top**, which is the sum of the heights before it. -/
theorem Placed.get {k : Nat} (h : Placed row ps index top) (hk : ps[k]? = some p) :
    (row p).index = index + k ∧ (row p).top = top + total row (ps.take k) := by
  induction ps generalizing index top k with
  | nil => cases hk
  | cons q ps ih =>
      obtain ⟨hindex, htop, hrest⟩ := h
      cases k with
      | zero =>
          obtain rfl := Option.some.inj hk
          exact ⟨hindex, htop⟩
      | succ k =>
          have hk := ih hrest (by simpa using hk)
          rw [List.take_succ_cons, total_cons]
          exact ⟨by omega, by omega⟩

/-! ### What placing does -/

theorem place_of_notMem (h : p ∉ ps) : place row ps index top p = row p := by
  induction ps generalizing row index top with
  | nil => rfl
  | cons q ps ih =>
      rw [List.mem_cons, not_or] at h
      obtain ⟨hne, hnot⟩ := h
      rw [place, ih hnot, Function.update_of_ne hne]

@[simp] theorem height_place : (place row ps index top p).height = (row p).height := by
  induction ps generalizing row index top with
  | nil => rfl
  | cons q ps ih =>
      rw [place, ih]
      by_cases hp : p = q
      · rw [hp, Function.update_self]
      · rw [Function.update_of_ne hp]

@[simp] theorem id_place : (place row ps index top p).id = (row p).id := by
  induction ps generalizing row index top with
  | nil => rfl
  | cons q ps ih =>
      rw [place, ih]
      by_cases hp : p = q
      · rw [hp, Function.update_self]
      · rw [Function.update_of_ne hp]

@[simp] theorem total_place : total (place row ps index top) qs = total row qs :=
  total_congr fun _ _ => height_place

theorem placed_place (h : ps.Nodup) : Placed (place row ps index top) ps index top := by
  induction ps generalizing row index top with
  | nil => trivial
  | cons p ps ih =>
      obtain ⟨hnot, hnodup⟩ := List.nodup_cons.mp h
      have hp : place row (p :: ps) index top p = { row p with index, top } := by
        rw [place, place_of_notMem hnot, Function.update_self]
      refine ⟨by rw [hp], by rw [hp], ?_⟩
      rw [hp]
      exact ih hnodup

/-- Some rows in the middle are placed again. -/
theorem placed_replaced (before moved after : List Pointer) (hbefore : Placed row before 0 0)
    (hafter : Placed row after (before.length + moved.length) (total row before + total row moved))
    (hnodup : (before ++ moved ++ after).Nodup) :
    Placed (place row moved before.length (total row before)) (before ++ moved ++ after) 0 0 := by
  obtain ⟨hmiddle, -, hlast⟩ := List.nodup_append.mp hnodup
  obtain ⟨-, hmoved, hfirst⟩ := List.nodup_append.mp hmiddle
  refine placed_append.mpr ⟨placed_append.mpr ⟨?_, ?_⟩, ?_⟩
  · exact hbefore.congr fun p hp => place_of_notMem fun hmem => hfirst p hp p hmem rfl
  · rw [Nat.zero_add, Nat.zero_add, total_place]
    exact placed_place hmoved
  · rw [Nat.zero_add, Nat.zero_add, List.length_append, total_append, total_place, total_place]
    exact hafter.congr fun p hp => place_of_notMem fun hmem =>
      hlast p (List.mem_append_right _ hmem) p hp rfl

/-- The rows without one. -/
theorem filter_ne {before after : List Pointer} (h : (before ++ p :: after).Nodup) :
    (before ++ p :: after).filter (· ≠ p) = before ++ after := by
  obtain ⟨-, hcons, hcross⟩ := List.nodup_append.mp h
  have hfirst : before.filter (· ≠ p) = before := List.filter_eq_self.mpr fun q hq => by
    simpa using hcross q hq p List.mem_cons_self
  have hlast : after.filter (· ≠ p) = after := List.filter_eq_self.mpr fun q hq => by
    simpa using fun heq : q = p => (List.nodup_cons.mp hcons).1 (heq ▸ hq)
  rw [List.filter_append, hfirst, List.filter_cons, if_neg (by simp), hlast]

/-! ## The list -/

/-- **The list is indexed and positioned.** -/
structure Good [DecidableEq κ] (l : DialogsList κ) : Prop where
  placed : Placed l.row l.rows 0 0
  nodup : l.rows.Nodup
  /-- The rows are those under the keys. -/
  getRow_eq : ∀ key p, l.getRow key = some p ↔ p ∈ l.rows ∧ (l.row p).id = some key
  keyed : ∀ p ∈ l.rows, ∃ key, (l.row p).id = some key
  pending : ∀ p ∈ l.pendingAdjust, p ∈ l.rows
  pending_nodup : l.pendingAdjust.Nodup
  made : ∀ p ∈ l.rows, p < l.made

variable [DecidableEq κ] {l l' : DialogsList κ}

/-- The rows are the same, in another order. -/
structure Moved (l l' : DialogsList κ) : Prop where
  good : l'.Good
  perm : l'.rows.Perm l.rows
  frozen : l'.frozen = l.frozen
  pending : l'.pendingAdjust = l.pendingAdjust
  getRow : l'.getRow = l.getRow
  id : ∀ p, (l'.row p).id = (l.row p).id

theorem Moved.refl (h : l.Good) : Moved l l := ⟨h, .refl _, rfl, rfl, rfl, fun _ => rfl⟩

theorem Moved.trans {l'' : DialogsList κ} (h : Moved l l') (h' : Moved l' l'') : Moved l l'' where
  good := h'.good
  perm := h'.perm.trans h.perm
  frozen := h'.frozen.trans h.frozen
  pending := h'.pending.trans h.pending
  getRow := h'.getRow.trans h.getRow
  id p := (h'.id p).trans (h.id p)

/-- Some rows in the middle come into another order, and are placed again under fields that
may have changed from them on. -/
theorem Good.place (h : l.Good) (before moved after : List Pointer)
    (hperm : (before ++ moved ++ after).Perm l.rows) (hid : ∀ p, (row p).id = (l.row p).id)
    (hbefore : Placed row before 0 0)
    (hafter : Placed row after (before.length + moved.length)
      (total row before + total row moved)) :
    Moved l { l with
      rows := before ++ moved ++ after
      row := DialogsList.place row moved before.length (total row before) } where
  good := {
    placed := placed_replaced before moved after hbefore hafter (hperm.nodup_iff.mpr h.nodup)
    nodup := hperm.nodup_iff.mpr h.nodup
    getRow_eq := fun key p => by
      rw [id_place, hid, hperm.mem_iff]
      exact h.getRow_eq key p
    keyed := fun p hp => by
      rw [id_place, hid]
      exact h.keyed p (hperm.mem_iff.mp hp)
    pending := fun p hp => hperm.mem_iff.mpr (h.pending p hp)
    pending_nodup := h.pending_nodup
    made := fun p hp => h.made p (hperm.mem_iff.mp hp) }
  perm := hperm
  frozen := rfl
  pending := rfl
  getRow := rfl
  id p := id_place.trans (hid p)

omit [DecidableEq κ] in
theorem replace_eq {rows moved : List Pointer} (h : l.replace rows moved index top = some l') :
    l' = { l with rows, row := DialogsList.place l.row moved index top } := by
  unfold DialogsList.replace at h
  split at h
  · exact (Option.some.inj h).symm
  · cases h

/-- Some rows in the middle come into another order and are placed again. -/
theorem Good.replace (h : l.Good) (before moved moved' after : List Pointer)
    (hrows : l.rows = before ++ moved ++ after) (hperm : moved'.Perm moved)
    (hreplace : l.replace (before ++ moved' ++ after) moved' before.length (total l.row before) =
      some l') : Moved l l' ∧ l'.rows = before ++ moved' ++ after := by
  obtain rfl := replace_eq hreplace
  have hall : (before ++ moved' ++ after).Perm l.rows := by
    rw [hrows]
    exact (hperm.append_left before).append_right after
  obtain ⟨hfirst, hafter⟩ := placed_append.mp (hrows ▸ h.placed)
  obtain ⟨hbefore, -⟩ := placed_append.mp hfirst
  refine ⟨h.place before moved' after hall (fun _ => rfl) hbefore ?_, rfl⟩
  rw [hperm.length_eq, total_perm hperm]
  simpa using hafter

/-- A rotation of two blocks of rows. -/
theorem Good.rotate (h : l.Good) (before first second after : List Pointer)
    (hrows : l.rows = before ++ (first ++ second) ++ after) {i j k : Nat}
    (hi : i = before.length) (hj : j = i + first.length) (hk : k = j + second.length)
    (hrotate : l.rotate i j k = some l') :
    Moved l l' ∧ l'.rows = before ++ (second ++ first) ++ after := by
  obtain ⟨p, hp, hreplace⟩ := Option.bind_eq_some_iff.mp hrotate
  dsimp only at hreplace
  have htop : (l.row p).top = total l.row before := by
    have htake : l.rows.take i = before := by
      rw [hrows, hi, List.append_assoc, List.take_left]
    rw [(h.placed.get hp).2, htake, Nat.zero_add]
  have hmoved : rotated l.rows i j k = second ++ first := by
    have hdrop : l.rows.drop i = first ++ (second ++ after) := by
      rw [hrows, hi, List.append_assoc, List.drop_left, List.append_assoc]
    have hdrop' : l.rows.drop j = second ++ after := by
      rw [hj, ← List.drop_drop, hdrop, List.drop_left]
    rw [rotated, hdrop', hdrop, hk, hj]
    simp
  have hwhole : l.rows.take i ++ (second ++ first) ++ l.rows.drop k =
      before ++ (second ++ first) ++ after := by
    have htake : l.rows.take i = before := by
      rw [hrows, hi, List.append_assoc, List.take_left]
    have hdrop : l.rows.drop k = after := by
      have hlength : k = (before ++ (first ++ second)).length := by
        simp only [List.length_append]
        omega
      rw [hrows, hlength, List.drop_left]
    rw [htake, hdrop]
  rw [hmoved, hwhole, htop, hi] at hreplace
  exact h.replace before _ _ after hrows List.perm_append_comm hreplace

/-! ## adjustByDate -/

variable {sortKey : κ → Nat} {pinned : Bool}

theorem Good.getElem?_index (h : l.Good) (hp : p ∈ l.rows) : l.rows[(l.row p).index]? = some p := by
  obtain ⟨k, hk⟩ := List.mem_iff_getElem?.mp hp
  rw [(h.placed.get hk).1, Nat.zero_add, hk]

/-- The rows around one. -/
theorem Good.split (h : l.Good) (hp : p ∈ l.rows) :
    ∃ before after, l.rows = before ++ p :: after ∧ before.length = (l.row p).index ∧
      l.rows.take (l.row p).index = before ∧ l.rows.drop ((l.row p).index + 1) = after := by
  obtain ⟨hlt, hget⟩ := List.getElem?_eq_some_iff.mp (h.getElem?_index hp)
  refine ⟨_, _, ?_, ?_, rfl, rfl⟩
  · have hdrop := List.drop_eq_getElem_cons hlt
    rw [hget] at hdrop
    rw [← hdrop, List.take_append_drop]
  · rw [List.length_take]
    exact Nat.min_eq_left hlt.le

/-- **Where a row goes**: past the rows after it whose sort keys are greater, or else before
those in front of it whose sort keys are less. -/
theorem Good.adjustNow (h : l.Good) (hp : p ∈ l.rows)
    (hadjust : l.adjustNow sortKey p = some l') :
    Moved l l' ∧ ∃ before after, l.rows = before ++ p :: after ∧
      (after.takeWhile (l.sortKeyOf sortKey p < l.sortKeyOf sortKey ·) ≠ [] ∧
        l'.rows = before ++ after.takeWhile (l.sortKeyOf sortKey p < l.sortKeyOf sortKey ·) ++
          p :: after.dropWhile (l.sortKeyOf sortKey p < l.sortKeyOf sortKey ·) ∨
      after.takeWhile (l.sortKeyOf sortKey p < l.sortKeyOf sortKey ·) = [] ∧
        l'.rows =
          (before.reverse.dropWhile (l.sortKeyOf sortKey · < l.sortKeyOf sortKey p)).reverse ++
            p :: ((before.reverse.takeWhile
              (l.sortKeyOf sortKey · < l.sortKeyOf sortKey p)).reverse ++ after)) := by
  obtain ⟨before, after, hsplit, hlength, hbefore, hafter⟩ := h.split hp
  have hindex : ¬ l.rows.length ≤ (l.row p).index := by
    rw [hsplit, List.length_append, List.length_cons]
    omega
  simp only [DialogsList.adjustNow, if_neg hindex, hbefore, hafter, findIdx_not_greater,
    findIdx_not_less] at hadjust
  rw [← hlength] at hadjust
  have hgreater := List.takeWhile_append_dropWhile (l := after)
    (p := fun q => l.sortKeyOf sortKey p < l.sortKeyOf sortKey q)
  have hless := List.takeWhile_append_dropWhile (l := before.reverse)
    (p := fun q => l.sortKeyOf sortKey q < l.sortKeyOf sortKey p)
  generalize hG : after.takeWhile (fun q => l.sortKeyOf sortKey p < l.sortKeyOf sortKey q) =
    greater at hadjust hgreater
  generalize hO : after.dropWhile (fun q => l.sortKeyOf sortKey p < l.sortKeyOf sortKey q) =
    others at hgreater
  generalize hL : before.reverse.takeWhile (fun q =>
    l.sortKeyOf sortKey q < l.sortKeyOf sortKey p) = less at hadjust hless
  generalize hF : before.reverse.dropWhile (fun q =>
    l.sortKeyOf sortKey q < l.sortKeyOf sortKey p) = front at hless
  split at hadjust
  · next hforward =>
      have hrows : l.rows = before ++ ([p] ++ greater) ++ others := by
        rw [hsplit, ← hgreater]
        simp
      obtain ⟨hmoved, hrows'⟩ := h.rotate _ _ _ _ hrows rfl rfl rfl hadjust
      refine ⟨hmoved, before, after, hsplit, .inl ?_⟩
      rw [hG, hO, hrows']
      refine ⟨?_, by simp⟩
      rintro rfl
      exact hforward rfl
  · next hstay =>
      have hnone : greater = [] := List.eq_nil_of_length_eq_zero (by omega)
      have hbefore' : before = front.reverse ++ less.reverse := by
        rw [← List.reverse_append, hless, List.reverse_reverse]
      have hrows : l.rows = front.reverse ++ (less.reverse ++ [p]) ++ after := by
        rw [hsplit, hbefore']
        simp
      have hsum : before.length = front.length + less.length := by
        rw [hbefore']
        simp
      split at hadjust
      · obtain ⟨hmoved, hrows'⟩ := h.rotate _ _ _ _ hrows (by simp; omega) (by simp; omega) rfl hadjust
        refine ⟨hmoved, before, after, hsplit, .inr ?_⟩
        rw [hG, hL, hF, hrows']
        exact ⟨hnone, by simp⟩
      · next hsame =>
          obtain rfl := Option.some.inj hadjust
          have hfew : less = [] := List.eq_nil_of_length_eq_zero (by omega)
          refine ⟨.refl h, before, after, hsplit, .inr ?_⟩
          rw [hG, hL, hF, hfew]
          refine ⟨hnone, ?_⟩
          rw [hsplit, hbefore', hfew]
          simp

omit [DecidableEq κ] in
/-- A row is adjusted at once, or it is pending. -/
theorem adjustByDate_cases (hadjust : l.adjustByDate sortKey p pinned = some l') :
    l.CanAdjust pinned ∧ l.adjustNow sortKey p = some l' ∨
      ¬ l.CanAdjust pinned ∧ l' = { l with
        pendingAdjust := if p ∈ l.pendingAdjust then l.pendingAdjust
          else l.pendingAdjust ++ [p] } := by
  unfold adjustByDate at hadjust
  split at hadjust
  · cases hadjust
  · split at hadjust
    · next hcan => exact .inl ⟨hcan, hadjust⟩
    · next hcan => exact .inr ⟨hcan, (Option.some.inj hadjust).symm⟩

theorem Good.adjustByDate (h : l.Good) (hp : p ∈ l.rows)
    (hadjust : l.adjustByDate sortKey p pinned = some l') : l'.Good := by
  rcases adjustByDate_cases hadjust with ⟨-, hnow⟩ | ⟨-, rfl⟩
  · exact (h.adjustNow hp hnow).1.good
  · refine ⟨h.placed, h.nodup, h.getRow_eq, h.keyed, fun q hq => ?_, ?_, h.made⟩
    · dsimp only at hq
      split at hq
      · exact h.pending q hq
      · cases List.mem_append.mp hq with
        | inl hold => exact h.pending q hold
        | inr hnew => exact List.mem_singleton.mp hnew ▸ hp
    · dsimp only
      split
      · exact h.pending_nodup
      · next hnot => exact List.nodup_append.mpr ⟨h.pending_nodup, List.pairwise_singleton _ p,
          fun a ha b hb heq => hnot (List.mem_singleton.mp hb ▸ heq ▸ ha)⟩

/-! ## addToEnd -/

/-- The height of the list is that of its rows. -/
theorem Good.height_eq {height : Nat} (h : l.Good) (hheight : l.height = some height) :
    height = total l.row l.rows := by
  unfold DialogsList.height at hheight
  split at hheight
  · next hnone =>
      rw [List.getLast?_eq_none_iff] at hnone
      rw [hnone, ← Option.some.inj hheight, total_nil]
  · next p hlast =>
      obtain ⟨rows, hrows⟩ := List.getLast?_eq_some_iff.mp hlast
      split at hheight
      · obtain rfl := Option.some.inj hheight
        have hplaced := h.placed
        rw [hrows, placed_append] at hplaced
        obtain ⟨-, -, htop, -⟩ := hplaced
        rw [hrows, total_append, total_cons, total_nil, htop, Nat.zero_add, Nat.add_zero]
      · cases hheight

/-- The list with a new row at its end. -/
def appended (l : DialogsList κ) (key : κ) (counted top : Nat) : DialogsList κ :=
  { l with
    rows := l.rows ++ [l.made]
    rowByKey := Dict.set l.rowByKey key l.made
    row := Function.update l.row l.made
      { id := some key, index := l.rows.length, top, height := counted }
    made := l.made + 1 }

theorem addToEnd_cases {key : κ} {counted : Nat}
    (hadd : l.addToEnd sortKey key pinned counted = some l') :
    l' = l ∨ l.getRow key = none ∧ ∃ top, l.height = some top ∧
      (l.appended key counted top).adjustByDate sortKey l.made pinned = some l' := by
  unfold addToEnd at hadd
  split at hadd
  · exact .inl (Option.some.inj hadd).symm
  · next hnone =>
      obtain ⟨top, htop, hadjust⟩ := Option.bind_eq_some_iff.mp hadd
      exact .inr ⟨hnone, top, htop, hadjust⟩

theorem Good.made_notMem (h : l.Good) : l.made ∉ l.rows := fun hmem =>
  Nat.lt_irrefl _ (h.made _ hmem)

theorem Good.row_appended {key : κ} {counted : Nat} (h : l.Good) (hp : p ∈ l.rows) :
    (l.appended key counted top).row p = l.row p :=
  Function.update_of_ne (by rintro rfl; exact h.made_notMem hp) _ _

theorem Good.appended {key : κ} (counted : Nat) (h : l.Good) (hnone : l.getRow key = none)
    (htop : l.height = some top) : (l.appended key counted top).Good := by
  have hold : ∀ p ∈ l.rows, (l.appended key counted top).row p = l.row p := fun p hp =>
    h.row_appended hp
  have hnew : (l.appended key counted top).row l.made =
      { id := some key, index := l.rows.length, top, height := counted } :=
    Function.update_self _ _ _
  have hkey : ∀ p ∈ l.rows, (l.row p).id ≠ some key := fun p hp hid => by
    rw [(h.getRow_eq key p).mpr ⟨hp, hid⟩] at hnone
    cases hnone
  refine ⟨?_, ?_, ?_, ?_, ?_, h.pending_nodup, ?_⟩
  · refine placed_append.mpr ⟨h.placed.congr hold, ?_, ?_, trivial⟩
    · rw [hnew, Nat.zero_add]
    · rw [hnew, Nat.zero_add, total_congr fun p hp => by rw [hold p hp]]
      exact h.height_eq htop
  · exact List.nodup_append.mpr ⟨h.nodup, List.pairwise_singleton _ _, fun a ha b hb heq =>
      h.made_notMem (List.mem_singleton.mp hb ▸ heq ▸ ha)⟩
  · intro k p
    have hfind : (l.appended key counted top).getRow k =
        if key = k then some l.made else l.getRow k := Dict.find?_set
    rw [hfind]
    change _ ↔ p ∈ l.rows ++ [l.made] ∧ _
    rw [List.mem_append, List.mem_singleton]
    constructor
    · intro hrow
      split at hrow
      · next hk =>
          obtain rfl := Option.some.inj hrow
          exact ⟨.inr rfl, by rw [hnew, hk]⟩
      · obtain ⟨hp, hid⟩ := (h.getRow_eq k p).mp hrow
        exact ⟨.inl hp, by rw [hold p hp, hid]⟩
    · rintro ⟨hp | rfl, hid⟩
      · rw [hold p hp] at hid
        rw [if_neg (by rintro rfl; exact hkey p hp hid)]
        exact (h.getRow_eq k p).mpr ⟨hp, hid⟩
      · rw [hnew] at hid
        rw [if_pos (Option.some.inj hid)]
  · intro p hp
    cases List.mem_append.mp hp with
    | inl hmem =>
        rw [hold p hmem]
        exact h.keyed p hmem
    | inr hmade =>
        rw [List.mem_singleton.mp hmade, hnew]
        exact ⟨key, rfl⟩
  · exact fun p hp => List.mem_append_left _ (h.pending p hp)
  · intro p hp
    cases List.mem_append.mp hp with
    | inl hmem => exact Nat.lt_succ_of_lt (h.made p hmem)
    | inr hmade => exact List.mem_singleton.mp hmade ▸ Nat.lt_succ_self _

theorem Good.addToEnd {key : κ} {counted : Nat} (h : l.Good)
    (hadd : l.addToEnd sortKey key pinned counted = some l') : l'.Good := by
  rcases addToEnd_cases hadd with rfl | ⟨hnone, top, htop, hadjust⟩
  · exact h
  · exact (h.appended _ hnone htop).adjustByDate
      (List.mem_append_right _ (List.mem_singleton_self _)) hadjust

/-! ## freeze and unfreeze -/

/-- The list without the rows that were pending, no longer frozen. -/
def thawed (l : DialogsList κ) : DialogsList κ := { l with frozen := false, pendingAdjust := [] }

theorem Good.thawed (h : l.Good) : l.thawed.Good :=
  ⟨h.placed, h.nodup, h.getRow_eq, h.keyed, nofun, List.nodup_nil, h.made⟩

omit [DecidableEq κ] in
/-- Where the list is not frozen, a row is adjusted at once. -/
theorem adjustNow_of_adjustByDate (hfrozen : l.frozen = false)
    (hadjust : l.adjustByDate sortKey p pinned = some l') : l.adjustNow sortKey p = some l' := by
  rcases adjustByDate_cases hadjust with ⟨-, hnow⟩ | ⟨hcannot, -⟩
  · exact hnow
  · exact absurd (fun hyes => by simp [hfrozen] at hyes) hcannot

theorem Good.adjustAll {pending : List Pointer} (h : l.Good) (hfrozen : l.frozen = false)
    (hpending : ∀ p ∈ pending, p ∈ l.rows)
    (hrun : pending.foldlM (fun l p => l.adjustByDate sortKey p false) l = some l') :
    Moved l l' := by
  induction pending generalizing l with
  | nil =>
      obtain rfl := Option.some.inj hrun
      exact .refl h
  | cons p pending ih =>
      rw [List.foldlM_cons] at hrun
      obtain ⟨middle, hmiddle, hrun⟩ := Option.bind_eq_some_iff.mp hrun
      have hnow := adjustNow_of_adjustByDate hfrozen hmiddle
      have hmoved := (h.adjustNow (hpending p List.mem_cons_self) hnow).1
      refine hmoved.trans (ih hmoved.good (hmoved.frozen.trans hfrozen) (fun q hq => ?_) hrun)
      exact hmoved.perm.mem_iff.mpr (hpending q (List.mem_cons_of_mem _ hq))

theorem Good.sortByDate (h : l.Good) (hsort : l.sortByDate sortKey = some l') :
    Moved l l' ∧ l'.rows =
      l.rows.mergeSort fun p q => l.sortKeyOf sortKey q ≤ l.sortKeyOf sortKey p := by
  have hsorted := h.replace [] l.rows _ []
    (by simp) (List.mergeSort_perm _ _) (by simpa [DialogsList.sortByDate] using hsort)
  simpa using hsorted

omit [DecidableEq κ] in
/-- What `unfreeze` does where no row, one row or more rows are pending. -/
theorem unfreeze_cases {pending : List Pointer} (hunfreeze : l.unfreeze sortKey pending = some l') :
    pending = [] ∧ l' = l.thawed ∨
      (∃ p, pending = [p] ∧ l.thawed.adjustNow sortKey p = some l') ∨
      ∃ middle, pending.foldlM (fun l p => l.adjustByDate sortKey p false) l.thawed = some middle ∧
        (middle.sortedByDate sortKey = true ∧ l' = middle ∨
          middle.sortByDate sortKey = some l') := by
  unfold unfreeze at hunfreeze
  split at hunfreeze
  · exact .inl ⟨rfl, (Option.some.inj hunfreeze).symm⟩
  · next p => exact .inr (.inl ⟨p, rfl, adjustNow_of_adjustByDate rfl hunfreeze⟩)
  · obtain ⟨middle, hmiddle, hrest⟩ := Option.bind_eq_some_iff.mp hunfreeze
    refine .inr (.inr ⟨middle, hmiddle, ?_⟩)
    split at hrest
    · next hsorted => exact .inl ⟨hsorted, (Option.some.inj hrest).symm⟩
    · exact .inr hrest

theorem Good.unfreeze {pending : List Pointer} (h : l.Good)
    (hpending : ∀ p ∈ pending, p ∈ l.rows) (hunfreeze : l.unfreeze sortKey pending = some l') :
    Moved l.thawed l' := by
  rcases unfreeze_cases hunfreeze with ⟨-, rfl⟩ | ⟨p, rfl, hnow⟩ | ⟨middle, hmiddle, hrest⟩
  · exact .refl h.thawed
  · exact (h.thawed.adjustNow (hpending p List.mem_cons_self) hnow).1
  · have hmoved := h.thawed.adjustAll rfl hpending hmiddle
    rcases hrest with ⟨-, rfl⟩ | hsort
    · exact hmoved
    · exact hmoved.trans (hmoved.good.sortByDate hsort).1

/-! ## Heights -/

theorem Good.updateHeight {key : κ} {counted : Nat} (h : l.Good)
    (hupdate : l.updateHeight key counted = some l') : Moved l l' ∧ l'.rows = l.rows := by
  unfold DialogsList.updateHeight at hupdate
  split at hupdate
  · obtain rfl := Option.some.inj hupdate
    exact ⟨.refl h, rfl⟩
  · next p hrow =>
      have hp := ((h.getRow_eq key p).mp hrow).1
      dsimp only at hupdate
      split at hupdate
      · cases hupdate
      · split at hupdate
        · obtain rfl := Option.some.inj hupdate
          exact ⟨.refl h, rfl⟩
        · obtain rfl := replace_eq hupdate
          obtain ⟨before, after, hsplit, hlength, htake, -⟩ := h.split hp
          have hdrop : l.rows.drop (l.row p).index = p :: after := by
            rw [hsplit, ← hlength, List.drop_left]
          have htop : (l.row p).top = total l.row before := by
            rw [(h.placed.get (h.getElem?_index hp)).2, htake, Nat.zero_add]
          have hnot : ∀ q ∈ before, q ≠ p := fun q hq =>
            (List.nodup_append.mp (hsplit ▸ h.nodup)).2.2 q hq p List.mem_cons_self
          have hsame : ∀ q ∈ before, Function.update l.row p
              { l.row p with height := counted } q = l.row q := fun q hq =>
            Function.update_of_ne (hnot q hq) _ _
          have hplaced := h.place before (p :: after) [] (by simp [hsplit])
            (fun q => (?_ : (Function.update l.row p { l.row p with height := counted } q).id = _))
            ((placed_append.mp (hsplit ▸ h.placed)).1.congr hsame) trivial
          · rw [total_congr fun q hq => by rw [hsame q hq], ← htop, List.append_nil, ← hsplit,
              hlength, ← hdrop] at hplaced
            exact ⟨hplaced, rfl⟩
          · by_cases hq : q = p
            · rw [hq, Function.update_self]
            · rw [Function.update_of_ne hq]

theorem Good.updateHeights {counted : κ → Nat} (h : l.Good)
    (hupdate : l.updateHeights counted = some l') : Moved l l' ∧ l'.rows = l.rows := by
  obtain ⟨-, -, hreplace⟩ := Option.bind_eq_some_iff.mp hupdate
  obtain rfl := replace_eq hreplace
  have hid : ∀ p, (if p ∈ l.rows then
      { l.row p with height := ((l.row p).id.map counted).getD 0 } else l.row p).id =
        (l.row p).id := fun p => by split <;> rfl
  have hplaced := h.place [] l.rows [] (by simp) hid trivial trivial
  exact ⟨by simpa using hplaced, rfl⟩

/-! ## moveToTop and remove -/

theorem Good.moveToTop {key : κ} (h : l.Good) (hmove : l.moveToTop key = some l') :
    Moved l l' := by
  unfold DialogsList.moveToTop at hmove
  split at hmove
  · obtain rfl := Option.some.inj hmove
    exact .refl h
  · next p hrow =>
      obtain ⟨before, after, hsplit, hlength, -, -⟩ := h.split ((h.getRow_eq key p).mp hrow).1
      rw [← hlength] at hmove
      exact (h.rotate [] before [p] after (by simp [hsplit]) rfl (by simp) rfl hmove).1

/-- What is left of the list without a row. -/
structure Removed (l l' : DialogsList κ) (key : κ) (p : Pointer) : Prop where
  good : l'.Good
  rows : l'.rows = l.rows.filter (· ≠ p)
  frozen : l'.frozen = l.frozen
  pending : l'.pendingAdjust = l.pendingAdjust.filter (· ≠ p)
  getRow : ∀ k, l'.getRow k = if key = k then none else l.getRow k
  id : ∀ q, (l'.row q).id = (l.row q).id

theorem Good.remove {key : κ} (h : l.Good) (hremove : l.remove key = some l') :
    l.getRow key = none ∧ l' = l ∨ ∃ p, l.getRow key = some p ∧ Removed l l' key p := by
  unfold DialogsList.remove at hremove
  split at hremove
  · next hnone => exact .inl ⟨hnone, (Option.some.inj hremove).symm⟩
  · next p hrow =>
      refine .inr ⟨p, hrow, ?_⟩
      obtain ⟨hp, hid⟩ := (h.getRow_eq key p).mp hrow
      obtain ⟨before, after, hsplit, hlength, htake, -⟩ := h.split hp
      have hrows : l.rows.eraseIdx (l.row p).index = before ++ after := by
        rw [hsplit, ← hlength, List.eraseIdx_append_of_length_le le_rfl]
        simp
      have hdrop : (before ++ after).drop (l.row p).index = after := by
        rw [← hlength, List.drop_left]
      have htop : (l.row p).top = total l.row before := by
        rw [(h.placed.get (h.getElem?_index hp)).2, htake, Nat.zero_add]
      dsimp only at hremove
      rw [hrows, hdrop] at hremove
      obtain rfl := replace_eq hremove
      have hplaced := h.placed
      rw [hsplit] at hplaced
      obtain ⟨hbefore, -⟩ := placed_append.mp hplaced
      have hleft : before ++ after = l.rows.filter (· ≠ p) := by
        rw [hsplit, filter_ne (hsplit ▸ h.nodup)]
      have hmem : ∀ q, q ∈ before ++ after ↔ q ∈ l.rows ∧ q ≠ p := fun q => by
        rw [hleft, List.mem_filter, decide_eq_true_iff]
      have hkey : ∀ k, (Dict.erase l.rowByKey key).find? k =
          if key = k then none else l.getRow k := fun k => Dict.find?_erase
      refine ⟨⟨?_, ?_, ?_, ?_, ?_, h.pending_nodup.filter _, ?_⟩, hleft, rfl, rfl, hkey,
        fun q => id_place⟩
      · rw [← hlength, htop]
        have hplaced := placed_replaced before after [] hbefore trivial
          (by rw [List.append_nil, hleft]; exact h.nodup.filter _)
        rwa [List.append_nil] at hplaced
      · show (before ++ after).Nodup
        rw [hleft]
        exact h.nodup.filter _
      · intro k q
        show (Dict.erase l.rowByKey key).find? k = some q ↔ q ∈ before ++ after ∧ _
        rw [hkey, hmem, id_place]
        constructor
        · intro hfind
          split at hfind
          · cases hfind
          · next hne =>
              obtain ⟨hq, hqid⟩ := (h.getRow_eq k q).mp hfind
              refine ⟨⟨hq, ?_⟩, hqid⟩
              rintro rfl
              exact hne (Option.some.inj (hid.symm.trans hqid))
        · rintro ⟨⟨hq, hne⟩, hqid⟩
          have hother : key ≠ k := by
            rintro rfl
            exact hne (Option.some.inj (((h.getRow_eq key q).mpr ⟨hq, hqid⟩).symm.trans hrow))
          rw [if_neg hother]
          exact (h.getRow_eq k q).mpr ⟨hq, hqid⟩
      · intro q hq
        rw [id_place]
        exact h.keyed q ((hmem q).mp hq).1
      · intro q hq
        obtain ⟨hq, hne⟩ := List.mem_filter.mp hq
        exact (hmem q).mpr ⟨h.pending q hq, by simpa using hne⟩
      · exact fun q hq => h.made q ((hmem q).mp hq).1

/-! ## Runs -/

theorem good_empty : ({} : DialogsList κ).Good where
  placed := trivial
  nodup := List.nodup_nil
  getRow_eq _ _ := ⟨nofun, fun hp => nomatch hp.1⟩
  keyed := nofun
  pending := nofun
  pending_nodup := List.nodup_nil
  made := nofun

namespace State

theorem good_next {s s' : State κ} {a : Action κ} (h : s.list.Good) (hnext : s.next a = some s') :
    s'.list.Good := by
  cases a with
  | setSortKey key sortKey =>
      obtain rfl := Option.some.inj hnext
      exact h
  | addToEnd key pinned counted =>
      obtain ⟨list, hlist, rfl⟩ := Option.map_eq_some_iff.mp hnext
      exact h.addToEnd hlist
  | adjustByDate key pinned =>
      obtain ⟨p, hp, hnext⟩ := Option.bind_eq_some_iff.mp hnext
      obtain ⟨list, hlist, hnext⟩ := Option.bind_eq_some_iff.mp hnext
      obtain rfl := Option.some.inj hnext
      exact h.adjustByDate ((h.getRow_eq key p).mp hp).1 hlist
  | freeze =>
      obtain rfl := Option.some.inj hnext
      obtain ⟨hplaced, hnodup, hgetRow, hkeyed, hpending, hpendingNodup, hmade⟩ := h
      exact ⟨hplaced, hnodup, hgetRow, hkeyed, hpending, hpendingNodup, hmade⟩
  | unfreeze pending =>
      obtain ⟨hperm, hnext⟩ := Option.ite_none_right_eq_some.mp hnext
      obtain ⟨list, hlist, rfl⟩ := Option.map_eq_some_iff.mp hnext
      refine (h.unfreeze (fun p hp => h.pending p ?_) hlist).good
      exact (List.isPerm_iff.mp hperm).mem_iff.mp hp
  | updateHeight key counted =>
      obtain ⟨list, hlist, rfl⟩ := Option.map_eq_some_iff.mp hnext
      exact (h.updateHeight hlist).1.good
  | updateHeights counted =>
      obtain ⟨list, hlist, rfl⟩ := Option.map_eq_some_iff.mp hnext
      exact (h.updateHeights hlist).1.good
  | moveToTop key =>
      obtain ⟨list, hlist, rfl⟩ := Option.map_eq_some_iff.mp hnext
      exact (h.moveToTop hlist).good
  | remove key =>
      obtain ⟨list, hlist, rfl⟩ := Option.map_eq_some_iff.mp hnext
      rcases h.remove hlist with ⟨-, rfl⟩ | ⟨p, -, hremoved⟩
      · exact h
      · exact hremoved.good

/-- **The list is indexed and positioned in every state of every run.** -/
theorem good_of_reachable {s : State κ} (h : system.Reachable s) : s.list.Good := by
  refine h.invariant (fun s hs => ?_) fun s a s' hs hstep => good_next hs hstep
  rw [hs.1]
  exact good_empty

end State

end DialogsList

end MessengerClient
