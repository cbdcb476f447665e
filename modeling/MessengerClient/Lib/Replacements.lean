import Mathlib

/-!
# MessengerClient.Lib.Replacements

Parts of a list that are replaced by other lists, and what becomes of the offsets.

What the result is to be is said by position and in no order: at the beginning of a part stands what
replaces it, at its other positions nothing, and between the parts the list is as it was (`expand`).
Replacing the parts one by one from the last one on gives that (`spliceAll_eq`), and so does the
offset that is moved by what the parts before it gained (`mapOffset_eq`).
-/

namespace MessengerClient

structure Replacement (α : Type) where
  offset : Nat
  length : Nat
  source : List α
deriving DecidableEq, Repr

namespace Replacement

variable {α : Type}

def stop (r : Replacement α) : Nat := r.offset + r.length

def Covers (r : Replacement α) (i : Nat) : Prop := r.offset ≤ i ∧ i < r.stop

instance (r : Replacement α) (i : Nat) : Decidable (r.Covers i) :=
  inferInstanceAs (Decidable (_ ∧ _))

/-- No position is in both. -/
def Apart (r s : Replacement α) : Prop := r.stop ≤ s.offset ∨ s.stop ≤ r.offset

instance : Std.Symm (@Apart α) := ⟨fun _ _ => Or.symm⟩

/-- What stands in the result for a position. -/
def unitAt (rs : List (Replacement α)) (text : List α) (i : Nat) : List α :=
  match rs.find? (·.Covers i) with
  | some r => if i = r.offset then r.source else []
  | none => text[i]?.toList

/-- The part of the result for the positions from `start` to `till`. -/
def expandFrom (rs : List (Replacement α)) (text : List α) (start till : Nat) : List α :=
  (List.range' start (till - start)).flatMap (unitAt rs text)

/-- **The beginning of the list** with its parts replaced. -/
def expand (rs : List (Replacement α)) (text : List α) (till : Nat) : List α :=
  expandFrom rs text 0 till

def splice (r : Replacement α) (text : List α) : List α :=
  text.take r.offset ++ r.source ++ text.drop r.stop

/-- The parts replaced, the last one first. -/
def spliceAll (rs : List (Replacement α)) (text : List α) : List α := rs.foldr splice text

/-- An offset moved past the parts before it; inside of a part it is moved to the beginning. -/
def mapOffset : List (Replacement α) → Int → Nat → Int
  | [], delta, offset => offset + delta
  | r :: rs, delta, offset =>
    if offset < r.offset then offset + delta
    else if offset ≤ r.stop then r.offset + delta + (if offset = r.stop then r.source.length else 0)
    else mapOffset rs (delta + (r.source.length - r.length)) offset

/-- Parts one behind the other, from `start` on. -/
def Ascending : Nat → List (Replacement α) → Prop
  | _, [] => True
  | start, r :: rs => start ≤ r.offset ∧ 0 < r.length ∧ Ascending r.stop rs

/-- Strictly inside of a part. -/
def Within (rs : List (Replacement α)) (offset : Nat) : Prop :=
  ∃ r ∈ rs, r.offset < offset ∧ offset < r.stop

/-- The beginning of the part that an offset is strictly inside of. -/
def floorOffset : List (Replacement α) → Nat → Nat
  | [], offset => offset
  | r :: rs, offset =>
    if r.offset < offset ∧ offset < r.stop then r.offset else floorOffset rs offset

variable {rs : List (Replacement α)} {r : Replacement α} {text : List α} {start till i : Nat}

theorem Ascending.offset_le (h : Ascending start rs) (hr : r ∈ rs) : start ≤ r.offset := by
  induction rs generalizing start with
  | nil => cases hr
  | cons s rs ih =>
    obtain ⟨hstart, hlength, hrest⟩ := h
    obtain rfl | hr := List.mem_cons.mp hr
    · exact hstart
    · have hle := ih hrest hr
      rw [stop] at hle
      omega

/-! ## Positions -/

theorem unitAt_of_not_covered (h : ∀ r ∈ rs, ¬r.Covers i) : unitAt rs text i = text[i]?.toList := by
  have hnone : rs.find? (·.Covers i) = none := by
    rw [List.find?_eq_none]
    simpa using h
  rw [unitAt, hnone]

theorem unitAt_cons_of_covers (h : r.Covers i) :
    unitAt (r :: rs) text i = if i = r.offset then r.source else [] := by
  rw [unitAt, List.find?_cons_of_pos (by simpa using h)]

theorem unitAt_cons_of_not_covers (h : ¬r.Covers i) :
    unitAt (r :: rs) text i = unitAt rs text i := by
  rw [unitAt, List.find?_cons_of_neg (by simpa using h), unitAt]

theorem expandFrom_append {middle : Nat} (hstart : start ≤ middle) (htill : middle ≤ till) :
    expandFrom rs text start till =
      expandFrom rs text start middle ++ expandFrom rs text middle till := by
  rw [expandFrom, expandFrom, expandFrom, ← List.flatMap_append]
  congr 1
  have happend := List.range'_append_1 (s := start) (m := middle - start) (n := till - middle)
  rw [Nat.add_sub_cancel' hstart] at happend
  rw [happend]
  congr 1
  omega

theorem expandFrom_congr {rs' : List (Replacement α)} {text' : List α}
    (h : ∀ i, start ≤ i → i < till → unitAt rs text i = unitAt rs' text' i) :
    expandFrom rs text start till = expandFrom rs' text' start till := by
  rw [expandFrom, expandFrom]
  refine List.flatMap_congr fun i hi => ?_
  rw [List.mem_range'_1] at hi
  exact h i hi.1 (by omega)

theorem flatMap_getElem (text : List α) (start n : Nat) :
    (List.range' start n).flatMap (fun i => text[i]?.toList) = (text.drop start).take n := by
  induction n generalizing start with
  | zero => simp
  | succ n ih =>
    rw [List.range'_succ, List.flatMap_cons, ih]
    by_cases hstart : start < text.length
    · rw [List.drop_eq_getElem_cons hstart, List.take_succ_cons, List.getElem?_eq_getElem hstart]
      rfl
    · have hlength := not_lt.mp hstart
      rw [List.getElem?_eq_none hlength, List.drop_eq_nil_of_le hlength,
        List.drop_eq_nil_of_le (hlength.trans (Nat.le_succ _))]
      simp

/-- Between the parts the list is as it was. -/
theorem expandFrom_plain (h : ∀ i, start ≤ i → i < till → ∀ r ∈ rs, ¬r.Covers i) :
    expandFrom rs text start till = (text.drop start).take (till - start) := by
  rw [← flatMap_getElem, expandFrom]
  refine List.flatMap_congr fun i hi => ?_
  rw [List.mem_range'_1] at hi
  exact unitAt_of_not_covered (h i hi.1 (by omega))

/-- A part stands for what replaces it. -/
theorem expandFrom_part (hlength : 0 < r.length) :
    expandFrom (r :: rs) text r.offset r.stop = r.source := by
  have hstop : r.stop - r.offset = r.length - 1 + 1 := by
    rw [stop]
    omega
  have hfirst : r.Covers r.offset := ⟨le_rfl, by rw [stop]; omega⟩
  rw [expandFrom, hstop, List.range'_succ, List.flatMap_cons, unitAt_cons_of_covers hfirst,
    if_pos rfl]
  have hrest :
      (List.range' (r.offset + 1) (r.length - 1)).flatMap (unitAt (r :: rs) text) = [] := by
    rw [List.flatMap_eq_nil_iff]
    intro i hi
    rw [List.mem_range'_1] at hi
    have hcovers : r.Covers i := ⟨by omega, by rw [stop]; omega⟩
    rw [unitAt_cons_of_covers hcovers, if_neg (by omega)]
  rw [hrest, List.append_nil]

/-- Up to the first part. -/
theorem expandFrom_before (h : Ascending start (r :: rs)) (htill : till ≤ r.offset) :
    expandFrom (r :: rs) text start till = (text.drop start).take (till - start) := by
  refine expandFrom_plain fun i _ hi s hs hcovers => ?_
  have hfirst : Ascending r.offset (r :: rs) := ⟨le_rfl, h.2⟩
  have hle := hfirst.offset_le hs
  have hcovered := hcovers.1
  omega

/-- **Past the first part.** -/
theorem expandFrom_cons (h : Ascending start (r :: rs)) (htill : r.stop ≤ till) :
    expandFrom (r :: rs) text start till =
      (text.drop start).take (r.offset - start) ++ r.source ++ expandFrom rs text r.stop till := by
  obtain ⟨hstart, hlength, hrest⟩ := id h
  have hstop : r.offset ≤ r.stop := Nat.le_add_right _ _
  have htail : expandFrom (r :: rs) text r.stop till = expandFrom rs text r.stop till := by
    refine expandFrom_congr fun i hi _ => unitAt_cons_of_not_covers fun hcovers => ?_
    exact absurd hcovers.2 (not_lt.mpr hi)
  rw [expandFrom_append hstart (hstop.trans htill), expandFrom_append hstop htill,
    expandFrom_before h le_rfl, expandFrom_part hlength, htail, List.append_assoc]

/-! ## Replacing from the back -/

/-- The parts are in the list. -/
def Fits (rs : List (Replacement α)) (text : List α) : Prop := ∀ r ∈ rs, r.stop ≤ text.length

/-- **Replacing the parts from the last one on** gives what the result is to be. -/
theorem spliceAll_from (h : Ascending start rs) (hfits : Fits rs text)
    (hstart : start ≤ text.length) :
    spliceAll rs text = text.take start ++ expandFrom rs text start text.length := by
  induction rs generalizing start with
  | nil =>
    have hall : (text.drop start).take (text.length - start) = text.drop start :=
      List.take_of_length_le (by rw [List.length_drop])
    rw [expandFrom_plain (by simp), hall, List.take_append_drop]
    rfl
  | cons r rs ih =>
    obtain ⟨hstop, hrest⟩ := List.forall_mem_cons.mp hfits
    have hoffset : r.offset ≤ r.stop := Nat.le_add_right _ _
    have hlength : (text.take r.stop).length = r.stop := List.length_take_of_le hstop
    rw [spliceAll, List.foldr_cons, ← spliceAll, ih h.2.2 hrest hstop, splice,
      List.take_append_of_le_length (by omega), List.take_take, min_eq_left hoffset,
      List.drop_append_of_le_length (by omega), List.drop_take, Nat.sub_self, List.take_zero,
      List.nil_append, expandFrom_cons h hstop]
    have htake : text.take r.offset =
        text.take start ++ (text.drop start).take (r.offset - start) := by
      rw [← List.take_add, Nat.add_sub_cancel' h.1]
    rw [htake]
    simp only [List.append_assoc]

/-- One part between two others is replaced. -/
theorem splice_middle (front middle back source : List α) :
    splice ⟨front.length, middle.length, source⟩ (front ++ middle ++ back) =
      front ++ source ++ back := by
  rw [splice, stop, List.append_assoc front, List.take_left, ← List.append_assoc,
    ← List.length_append, List.drop_left]

theorem spliceAll_eq (h : Ascending 0 rs) (hfits : Fits rs text) :
    spliceAll rs text = expand rs text text.length := by
  rw [spliceAll_from h hfits (Nat.zero_le _), List.take_zero, List.nil_append, expand]

/-! ## Offsets -/

theorem floorOffset_of_le {offset : Nat} (h : ∀ r ∈ rs, offset ≤ r.offset) :
    floorOffset rs offset = offset := by
  induction rs with
  | nil => rfl
  | cons r rs ih =>
    obtain ⟨hr, hrest⟩ := List.forall_mem_cons.mp h
    rw [floorOffset, if_neg (by omega), ih hrest]

theorem floorOffset_of_not_within {offset : Nat} (h : ¬Within rs offset) :
    floorOffset rs offset = offset := by
  induction rs with
  | nil => rfl
  | cons r rs ih =>
    simp only [Within, List.exists_mem_cons_iff, not_or] at h
    rw [floorOffset, if_neg h.1, ih h.2]

theorem le_floorOffset {offset : Nat} (h : Ascending start rs) (hoffset : start ≤ offset) :
    start ≤ floorOffset rs offset := by
  induction rs generalizing start with
  | nil => exact hoffset
  | cons r rs ih =>
    rw [floorOffset]
    split
    · exact h.1
    · by_cases hpast : r.stop ≤ offset
      · have hle := ih h.2.2 hpast
        have hstop : r.offset ≤ r.stop := Nat.le_add_right _ _
        exact (h.1.trans hstop).trans hle
      · rw [floorOffset_of_le]
        · exact hoffset
        · intro s hs
          have hle := h.2.2.offset_le hs
          omega

theorem floorOffset_le (rs : List (Replacement α)) (offset : Nat) :
    floorOffset rs offset ≤ offset := by
  induction rs with
  | nil => exact le_rfl
  | cons r rs ih =>
    rw [floorOffset]
    split
    · omega
    · exact ih

/-- **The moved offset** is where what replaces the beginning ends. -/
theorem mapOffset_from {offset : Nat} {delta : Int} (h : Ascending start rs)
    (hstart : start ≤ offset) (hoffset : offset ≤ text.length) :
    mapOffset rs delta offset =
      start + delta + (expandFrom rs text start (floorOffset rs offset)).length := by
  induction rs generalizing start delta with
  | nil =>
    rw [floorOffset, expandFrom_plain (by simp), mapOffset, List.length_take, List.length_drop]
    omega
  | cons r rs ih =>
    have hstop : r.stop = r.offset + r.length := rfl
    have hlength := h.2.1
    have hfirst := h.1
    rw [mapOffset]
    by_cases hbefore : offset < r.offset
    · have hall : ∀ s ∈ r :: rs, offset ≤ s.offset := by
        intro s hs
        have hfirst : Ascending r.offset (r :: rs) := ⟨le_rfl, h.2⟩
        have hle := hfirst.offset_le hs
        omega
      rw [if_pos hbefore, floorOffset_of_le hall, expandFrom_before h hbefore.le, List.length_take,
        List.length_drop]
      omega
    rw [if_neg hbefore]
    by_cases hpast : r.stop ≤ offset
    · have hfloor : floorOffset (r :: rs) offset = floorOffset rs offset := by
        rw [floorOffset, if_neg (by omega)]
      have hle := le_floorOffset h.2.2 hpast
      rw [hfloor, expandFrom_cons h hle, List.length_append, List.length_append, List.length_take,
        List.length_drop]
      by_cases hend : offset = r.stop
      · have hall : ∀ s ∈ rs, offset ≤ s.offset := fun s hs => hend ▸ h.2.2.offset_le hs
        rw [if_pos hend.le, if_pos hend, floorOffset_of_le hall, hend]
        rw [expandFrom_plain (fun i hi hlt => absurd hlt (not_lt.mpr hi)), Nat.sub_self,
          List.take_zero, List.length_nil]
        omega
      · rw [if_neg (by omega), ih h.2.2 hpast]
        omega
    · have hfloor : floorOffset (r :: rs) offset = r.offset := by
        rw [floorOffset]
        split
        · rfl
        · have hsame : offset = r.offset := by omega
          rw [hsame, floorOffset_of_le]
          intro s hs
          have hle := h.2.2.offset_le hs
          omega
      rw [if_pos (by omega), if_neg (by omega), hfloor, expandFrom_before h le_rfl,
        List.length_take, List.length_drop]
      omega

theorem mapOffset_eq {offset : Nat} (h : Ascending 0 rs) (hoffset : offset ≤ text.length) :
    mapOffset rs 0 offset = (expand rs text (floorOffset rs offset)).length := by
  rw [mapOffset_from h (Nat.zero_le _) hoffset, expand]
  omega

theorem floorOffset_mono {a b : Nat} (h : Ascending start rs) (hab : a ≤ b) :
    floorOffset rs a ≤ floorOffset rs b := by
  induction rs generalizing start with
  | nil => exact hab
  | cons r rs ih =>
    by_cases hb : r.offset < b ∧ b < r.stop
    · rw [floorOffset, floorOffset, if_pos hb]
      split
      · exact le_rfl
      · have hle := floorOffset_le rs a
        omega
    · rw [floorOffset, floorOffset, if_neg hb]
      split
      · have hpast : r.stop ≤ b := by omega
        have hoffset : r.offset ≤ r.stop := Nat.le_add_right _ _
        exact hoffset.trans (le_floorOffset h.2.2 hpast)
      · exact ih h.2.2

theorem expand_le {a b : Nat} (hab : a ≤ b) : expand rs text a <+: expand rs text b :=
  ⟨expandFrom rs text a b, (expandFrom_append (Nat.zero_le _) hab).symm⟩

/-- **Offsets keep their order.** -/
theorem mapOffset_mono {a b : Nat} (h : Ascending 0 rs) (hab : a ≤ b) (hb : b ≤ text.length) :
    mapOffset rs 0 a ≤ mapOffset rs 0 b := by
  rw [mapOffset_eq h (hab.trans hb), mapOffset_eq h hb]
  exact_mod_cast (expand_le (floorOffset_mono h hab)).length_le

/-- **Before the moved offset** stands what replaces the beginning of the list. -/
theorem take_mapOffset {offset : Nat} (h : Ascending 0 rs) (hfits : Fits rs text)
    (hoffset : offset ≤ text.length) (hwithin : ¬Within rs offset) :
    0 ≤ mapOffset rs 0 offset ∧
      (spliceAll rs text).take (mapOffset rs 0 offset).toNat = expand rs text offset := by
  rw [mapOffset_eq h hoffset, floorOffset_of_not_within hwithin, spliceAll_eq h hfits,
    Int.toNat_natCast]
  obtain ⟨rest, hrest⟩ := @expand_le _ rs text _ _ hoffset
  rw [← hrest, List.take_left]
  exact ⟨Int.natCast_nonneg _, rfl⟩

/-! ## Parts in any order -/

theorem eq_of_covers {rs : List (Replacement α)} (h : rs.Pairwise Apart) {r s : Replacement α}
    (hr : r ∈ rs) (hs : s ∈ rs) (hi : r.Covers i) (hi' : s.Covers i) : r = s := by
  by_contra hne
  obtain hapart | hapart := h.forall hr hs hne
  · exact absurd (hapart.trans hi'.1) (not_le.mpr hi.2)
  · exact absurd (hapart.trans hi.1) (not_le.mpr hi'.2)

/-- The order of the parts makes no difference. -/
theorem unitAt_perm {rs' : List (Replacement α)} (h : rs.Pairwise Apart) (hperm : rs.Perm rs')
    (text : List α) (i : Nat) : unitAt rs text i = unitAt rs' text i := by
  have hsame : rs.find? (·.Covers i) = rs'.find? (·.Covers i) := by
    cases hfind : rs.find? (·.Covers i) with
    | none =>
      rw [List.find?_eq_none] at hfind
      rw [eq_comm, List.find?_eq_none]
      exact fun r hr => hfind r (hperm.mem_iff.mpr hr)
    | some r =>
      have hcovers := List.find?_some hfind
      have hr := List.mem_of_find?_eq_some hfind
      cases hfind' : rs'.find? (·.Covers i) with
      | none =>
        rw [List.find?_eq_none] at hfind'
        exact absurd hcovers (hfind' r (hperm.mem_iff.mp hr))
      | some s =>
        have hcovers' := List.find?_some hfind'
        have hs := hperm.mem_iff.mpr (List.mem_of_find?_eq_some hfind')
        rw [eq_of_covers h hr hs (of_decide_eq_true hcovers) (of_decide_eq_true hcovers')]
  rw [unitAt, unitAt, hsame]

theorem expand_perm {rs' : List (Replacement α)} (h : rs.Pairwise Apart) (hperm : rs.Perm rs')
    (text : List α) (till : Nat) : expand rs text till = expand rs' text till :=
  expandFrom_congr fun i _ _ => unitAt_perm h hperm text i

/-- Parts that are apart, in the order of their offsets, are one behind the other. -/
theorem ascending_of_sorted (hstart : ∀ r ∈ rs, start ≤ r.offset) (hpos : ∀ r ∈ rs, 0 < r.length)
    (hsorted : rs.Pairwise (·.offset ≤ ·.offset)) (h : rs.Pairwise Apart) : Ascending start rs := by
  induction rs generalizing start with
  | nil => trivial
  | cons r rs ih =>
    obtain ⟨hr, -⟩ := List.forall_mem_cons.mp hstart
    obtain ⟨hlength, hrest⟩ := List.forall_mem_cons.mp hpos
    obtain ⟨hle, hsorted⟩ := List.pairwise_cons.mp hsorted
    obtain ⟨hapart, h⟩ := List.pairwise_cons.mp h
    refine ⟨hr, hlength, ih (fun s hs => ?_) hrest hsorted h⟩
    obtain hbehind | hbefore := hapart s hs
    · exact hbehind
    · have hpos := hrest s hs
      have hoffset := hle s hs
      rw [stop] at hbefore
      omega

end Replacement

end MessengerClient
