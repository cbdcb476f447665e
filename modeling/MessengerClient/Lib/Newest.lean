import Mathlib

/-!
# MessengerClient.Lib.Newest

Lists with the greatest key first.  Where an element stands is how many are greater, so elements
that are added take the others to later places only, and a page that is cut out by its offset has
the elements with that many greater ones.
-/

namespace MessengerClient

variable {α κ : Type*} [LinearOrder κ] (key : α → κ)

def newestFirst (l : List α) : List α := l.mergeSort fun a b => key b ≤ key a

/-- How many elements are greater. -/
def greater (l : List α) (a : α) : Nat := l.countP fun b => key a < key b

variable {key} {l l' : List α} {a : α} {n offset limit : Nat}

theorem newestFirst_perm (l : List α) : (newestFirst key l).Perm l := List.mergeSort_perm _ _

@[simp] theorem length_newestFirst (l : List α) : (newestFirst key l).length = l.length :=
  List.length_mergeSort _

/-- The keys of a list that has them all different fall. -/
theorem pairwise_newestFirst (h : (l.map key).Nodup) :
    (newestFirst key l).Pairwise fun a b => key b < key a := by
  have hsorted : (newestFirst key l).Pairwise fun a b => key b ≤ key a := by
    have hpairwise := @List.pairwise_mergeSort α (fun a b => decide (key b ≤ key a))
      (fun a b c hab hbc => by
        rw [decide_eq_true_eq] at hab hbc ⊢
        exact hbc.trans hab)
      (fun a b => by simpa using le_total (key b) (key a)) l
    simpa [newestFirst] using hpairwise
  have hne : (newestFirst key l).Pairwise fun a b => key a ≠ key b :=
    List.pairwise_map.mp (((newestFirst_perm l).map key).nodup_iff.mpr h)
  exact (hsorted.and hne).imp fun hab => lt_of_le_of_ne hab.1 (Ne.symm hab.2)

/-- **Elements that are added** take the others to later places. -/
theorem greater_le_of_sublist (h : l.Sublist l') : greater key l a ≤ greater key l' a :=
  h.countP_le

theorem greater_lt_length (h : a ∈ l) : greater key l a < l.length := by
  refine (List.countP_le_length).lt_of_ne fun hall => ?_
  have hself := List.countP_eq_length.mp hall a h
  simp at hself

/-- In a list whose keys fall, an element stands behind the greater ones. -/
theorem getElem?_greater (h : l.Pairwise fun a b => key b < key a) (ha : a ∈ l) :
    l[greater key l a]? = some a := by
  induction l with
  | nil => cases ha
  | cons b l ih =>
    obtain ⟨hb, hl⟩ := List.pairwise_cons.mp h
    rw [greater, List.countP_cons]
    cases List.mem_cons.mp ha with
    | inl heq =>
      subst heq
      have hzero : l.countP (fun b => key a < key b) = 0 := by
        simpa [List.countP_eq_zero] using fun b hmem => (hb b hmem).le
      simp [hzero]
    | inr ha =>
      rw [if_pos (by simpa using hb a ha), List.getElem?_cons_succ]
      exact ih hl ha

theorem nodup_of_pairwise_lt (h : l.Pairwise fun a b => key b < key a) : l.Nodup :=
  h.imp fun hab heq => hab.ne (congrArg key heq.symm)

/-- **A page** has the elements whose place is on it. -/
theorem mem_page_iff (h : (l.map key).Nodup) (ha : a ∈ l) :
    a ∈ ((newestFirst key l).drop offset).take limit ↔
      offset ≤ greater key l a ∧ greater key l a < offset + limit := by
  have hpairwise := pairwise_newestFirst h
  have hmem : a ∈ newestFirst key l := (newestFirst_perm l).mem_iff.mpr ha
  have hplace : (newestFirst key l)[greater key l a]? = some a := by
    have hperm : greater key (newestFirst key l) a = greater key l a :=
      (newestFirst_perm l).countP_eq _
    rw [← hperm]
    exact getElem?_greater hpairwise hmem
  constructor
  · intro hpage
    obtain ⟨i, hi⟩ := List.mem_iff_getElem?.mp hpage
    rw [List.getElem?_take] at hi
    split at hi
    · next hlimit =>
      rw [List.getElem?_drop, ← hplace] at hi
      have hlt := (List.getElem?_eq_some_iff.mp hplace).1
      have heq := (List.getElem?_inj hlt (nodup_of_pairwise_lt hpairwise)).mp hi.symm
      omega
    · cases hi
  · rintro ⟨hoffset, hlimit⟩
    refine List.mem_iff_getElem?.mpr ⟨greater key l a - offset, ?_⟩
    rw [List.getElem?_take_of_lt (by omega), List.getElem?_drop, Nat.add_sub_cancel' hoffset,
      hplace]

end MessengerClient
