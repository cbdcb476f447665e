import Mathlib

/-!
# MessengerClient.Lib.Moves

Elements of a list that change places: two are swapped, one is carried over its neighbours
by swaps or by a rotation, and a list is arranged by keys, each brought in turn to the place
that it is due.

Positions are those of the list as a vector; the lemmas read them as the length of what
comes before.
-/

namespace MessengerClient

variable {α κ : Type} {a b x : α} {l l₁ l₂ l₃ : List α}

/-- `std::swap` of two elements. -/
def swapAt (l : List α) (i j : Nat) : List α :=
  match l[i]?, l[j]? with
  | some a, some b => (l.set i b).set j a
  | _, _ => l

/-- `std::rotate` of the elements from `first` to `last`. -/
def rotateAt (l : List α) (first middle last : Nat) : List α :=
  l.take first ++ (l.drop middle).take (last - middle) ++
    (l.drop first).take (middle - first) ++ l.drop last

/-- `ranges::find` from a position to the end of the list. -/
def findFrom (p : α → Bool) (l : List α) (position : Nat) : Nat :=
  position + (l.drop position).findIdx p

/-! ## Positions as lengths -/

theorem swapAt_append :
    swapAt (l₁ ++ a :: (l₂ ++ b :: l₃)) l₁.length (l₁.length + (l₂.length + 1)) =
      l₁ ++ b :: (l₂ ++ a :: l₃) := by
  have ha : (l₁ ++ a :: (l₂ ++ b :: l₃))[l₁.length]? = some a := by simp
  have hb : (l₁ ++ a :: (l₂ ++ b :: l₃))[l₁.length + (l₂.length + 1)]? = some b := by
    rw [List.getElem?_append_right (by omega), Nat.add_sub_cancel_left, List.getElem?_cons_succ]
    simp
  simp only [swapAt, ha, hb]
  rw [List.set_append_right _ _ le_rfl, Nat.sub_self, List.set_cons_zero,
    List.set_append_right _ _ (by omega), Nat.add_sub_cancel_left, List.set_cons_succ,
    List.set_append_right _ _ le_rfl, Nat.sub_self, List.set_cons_zero]

theorem insertIdx_append : (l₁ ++ l₂).insertIdx l₁.length x = l₁ ++ x :: l₂ := by
  induction l₁ with
  | nil => rfl
  | cons a l₁ ih => rw [List.cons_append, List.length_cons, List.insertIdx_succ_cons, ih]; rfl

theorem findFrom_append (p : α → Bool) :
    findFrom p (l₁ ++ l₂) l₁.length = l₁.length + l₂.findIdx p := by
  rw [findFrom, List.drop_left]

/-- An element before which there is none is found where it is. -/
theorem findIdx_append_cons {p : α → Bool} (hbefore : ∀ y ∈ l₁, p y = false) (hx : p x = true) :
    (l₁ ++ x :: l₂).findIdx p = l₁.length := by
  induction l₁ with
  | nil => simp [List.findIdx_cons, hx]
  | cons y l₁ ih =>
      rw [List.cons_append, List.findIdx_cons, hbefore y List.mem_cons_self, cond_false,
        ih fun z hz => hbefore z (List.mem_cons_of_mem y hz), List.length_cons]

/-- What is before the first element that is searched for, the element, and what is after. -/
theorem exists_first {p : α → Bool} (h : ∃ x ∈ l, p x = true) :
    ∃ l₁ x l₂, l = l₁ ++ x :: l₂ ∧ (∀ y ∈ l₁, p y = false) ∧ p x = true := by
  induction l with
  | nil =>
      obtain ⟨x, hx, -⟩ := h
      cases hx
  | cons y l ih =>
      cases hy : p y with
      | true => exact ⟨[], y, l, rfl, by simp, hy⟩
      | false =>
          obtain ⟨x, hx, hpx⟩ := h
          have hmem : x ∈ l := (List.mem_cons.mp hx).resolve_left fun heq => by
            rw [heq, hy] at hpx
            cases hpx
          obtain ⟨l₁, x, l₂, rfl, hbefore, hpx⟩ := ih ⟨x, hmem, hpx⟩
          exact ⟨y :: l₁, x, l₂, rfl, List.forall_mem_cons.mpr ⟨hy, hbefore⟩, hpx⟩

theorem findIdx_of_none {p : α → Bool} (h : ∀ y ∈ l, p y = false) : l.findIdx p = l.length :=
  List.findIdx_eq_length.mpr h

/-! ## One element among its neighbours -/

/-- `n` swaps with the next element, from position `i` on. -/
def swapForward : Nat → Nat → List α → List α
  | 0, _, l => l
  | n + 1, i, l => swapForward n (i + 1) (swapAt l i (i + 1))

/-- `n` swaps with the previous element, from position `i` down. -/
def swapBackward : Nat → Nat → List α → List α
  | 0, _, l => l
  | n + 1, i, l => swapBackward n (i - 1) (swapAt l (i - 1) i)

/-- Swaps with the next elements carry an element over them. -/
theorem swapForward_append :
    swapForward l₂.length l₁.length (l₁ ++ a :: (l₂ ++ l₃)) = l₁ ++ (l₂ ++ a :: l₃) := by
  induction l₂ generalizing l₁ with
  | nil => rfl
  | cons b l₂ ih =>
      have hswap := @swapAt_append _ a b l₁ [] (l₂ ++ l₃)
      simp only [List.nil_append, List.length_nil, Nat.zero_add] at hswap
      rw [List.length_cons, swapForward, List.cons_append, hswap]
      have hnext := @ih (l₁ ++ [b])
      simp only [List.length_append, List.length_singleton, List.append_assoc,
        List.singleton_append] at hnext
      exact hnext

/-- Swaps with the previous elements carry an element back over them. -/
theorem swapBackward_append :
    swapBackward l₂.length (l₁.length + l₂.length) (l₁ ++ (l₂ ++ a :: l₃)) =
      l₁ ++ a :: (l₂ ++ l₃) := by
  induction l₂ using List.reverseRecOn generalizing l₃ with
  | nil => rfl
  | append_singleton l₂ b ih =>
      have hswap := @swapAt_append _ b a (l₁ ++ l₂) [] l₃
      simp only [List.nil_append, List.length_nil, Nat.zero_add, List.length_append] at hswap
      rw [List.length_append, List.length_singleton, swapBackward, ← Nat.add_assoc,
        Nat.add_sub_cancel, List.append_assoc, List.singleton_append, ← List.append_assoc, hswap,
        List.append_assoc, ih, List.append_assoc, List.singleton_append]

/-! ## One element of a list in order -/

section Order

variable {β : Type} [LinearOrder β] (key : α → β)

/-- The keys of a list are strictly increasing. -/
def Increasing (l : List α) : Prop := l.Pairwise fun a b => key a < key b

variable {key}

theorem Increasing.nodup (h : Increasing key l) : l.Nodup :=
  h.imp fun hlt heq => absurd (heq ▸ hlt) (lt_irrefl _)

/-- An element goes between those with smaller and those with larger keys. -/
theorem Increasing.insert (h : Increasing key (l₁ ++ l₂)) (hbefore : ∀ y ∈ l₁, key y < key x)
    (hafter : ∀ y ∈ l₂, key x < key y) : Increasing key (l₁ ++ x :: l₂) := by
  obtain ⟨h₁, h₂, h₁₂⟩ := List.pairwise_append.mp h
  refine List.pairwise_append.mpr ⟨h₁, List.pairwise_cons.mpr ⟨hafter, h₂⟩, ?_⟩
  intro y hy z hz
  obtain rfl | hz := List.mem_cons.mp hz
  · exact hbefore y hy
  · exact h₁₂ y hy z hz

/-- The elements with keys at most `k`, then those with larger ones. -/
theorem Increasing.exists_split (h : Increasing key l) (k : β) :
    ∃ l₁ l₂, l = l₁ ++ l₂ ∧ (∀ y ∈ l₁, key y ≤ k) ∧ ∀ y ∈ l₂, k < key y := by
  induction l with
  | nil => exact ⟨[], [], rfl, by simp, by simp⟩
  | cons a l ih =>
      obtain ⟨hhead, htail⟩ := List.pairwise_cons.mp h
      by_cases ha : key a ≤ k
      · obtain ⟨l₁, l₂, rfl, h₁, h₂⟩ := ih htail
        exact ⟨a :: l₁, l₂, rfl, List.forall_mem_cons.mpr ⟨ha, h₁⟩, h₂⟩
      · have hlt := not_le.mp ha
        exact ⟨[], a :: l, rfl, by simp,
          List.forall_mem_cons.mpr ⟨hlt, fun y hy => hlt.trans (hhead y hy)⟩⟩

theorem findIdx_split {p : α → Bool} (hbefore : ∀ y ∈ l₁, p y = false)
    (hafter : ∀ y ∈ l₂, p y = true) : (l₁ ++ l₂).findIdx p = l₁.length := by
  cases l₂ with
  | nil => rw [List.append_nil]; exact findIdx_of_none hbefore
  | cons y l₂ => exact findIdx_append_cons hbefore (hafter y List.mem_cons_self)

/-- **A new element** is inserted before the first one with a larger key. -/
theorem Increasing.insertIdx (h : Increasing key l) (hne : ∀ y ∈ l, key y ≠ key x) :
    Increasing key (l.insertIdx (l.findIdx (key x < key ·)) x) := by
  obtain ⟨l₁, l₂, rfl, h₁, h₂⟩ := h.exists_split (key x)
  rw [findIdx_split (fun y hy => decide_eq_false (not_lt.mpr (h₁ y hy)))
    fun y hy => decide_eq_true (h₂ y hy), insertIdx_append]
  exact h.insert (fun y hy => (h₁ y hy).lt_of_ne (hne y (List.mem_append_left _ hy))) h₂

/-- **An element among others in order** is where it is due, or swaps carry it there: behind
those with smaller keys that come after it, or before those with larger keys that come
before it. -/
theorem Increasing.exists_place (h : Increasing key (l₁ ++ l₂))
    (hne : ∀ y ∈ l₁ ++ l₂, key y ≠ key x) :
    let position := (l₁ ++ x :: l₂).findIdx (key x < key ·)
    ∃ front back, front ++ back = l₁ ++ l₂ ∧ Increasing key (front ++ x :: back) ∧
      (position = l₁.length + 1 ∧ front ++ x :: back = l₁ ++ x :: l₂ ∨
        position > l₁.length + 1 ∧
          swapForward (position - (l₁.length + 1)) l₁.length (l₁ ++ x :: l₂) =
            front ++ x :: back ∨
        position < l₁.length ∧
          swapBackward (l₁.length - position) l₁.length (l₁ ++ x :: l₂) =
            front ++ x :: back) := by
  intro position
  obtain ⟨h₁, h₂, h₁₂⟩ := List.pairwise_append.mp h
  have hlt : ∀ y ∈ l₁ ++ l₂, key y ≤ key x → key y < key x :=
    fun y hy hle => hle.lt_of_ne (hne y hy)
  obtain ⟨a, b, rfl, ha, hb⟩ := Increasing.exists_split h₁ (key x)
  cases b with
  | cons y b =>
      have hposition : position = a.length := by
        show List.findIdx _ _ = _
        rw [List.append_assoc, List.cons_append]
        exact findIdx_append_cons (fun z hz => decide_eq_false (not_lt.mpr (ha z hz)))
          (decide_eq_true (hb y List.mem_cons_self))
      have hlarge : ∀ z ∈ y :: b ++ l₂, key x < key z := by
        intro z hz
        obtain hz | hz := List.mem_append.mp hz
        · exact hb z hz
        · have hyz := h₁₂ y (List.mem_append_right a List.mem_cons_self) z hz
          exact (hb y List.mem_cons_self).trans hyz
      rw [List.append_assoc] at h hlt ⊢
      refine ⟨a, y :: b ++ l₂, rfl,
        h.insert (fun z hz => hlt z (List.mem_append_left _ hz) (ha z hz)) hlarge, ?_⟩
      refine Or.inr (Or.inr ⟨?_, ?_⟩)
      · rw [hposition, List.length_append, List.length_cons]
        omega
      · rw [hposition, List.length_append, Nat.add_sub_cancel_left, List.append_assoc]
        exact swapBackward_append
  | nil =>
      rw [List.append_nil] at *
      obtain ⟨c, d, rfl, hc, hd⟩ := Increasing.exists_split h₂ (key x)
      have hposition : position = a.length + 1 + c.length := by
        have hfind := @findIdx_split _ (a ++ x :: c) d
          (fun z => decide (key x < key z)) ?_ fun z hz => decide_eq_true (hd z hz)
        · show List.findIdx _ _ = _
          rw [List.append_nil, ← List.cons_append, ← List.append_assoc, hfind, List.length_append,
            List.length_cons]
          omega
        · intro z hz
          refine decide_eq_false (not_lt.mpr ?_)
          obtain hz | hz := List.mem_append.mp hz
          · exact ha z hz
          · obtain rfl | hz := List.mem_cons.mp hz
            · exact le_rfl
            · exact hc z hz
      rw [← List.append_assoc] at h hlt
      refine ⟨a ++ c, d, List.append_assoc .., h.insert (fun z hz => ?_) hd, ?_⟩
      · refine hlt z (List.mem_append_left _ hz) ?_
        obtain hz | hz := List.mem_append.mp hz
        · exact ha z hz
        · exact hc z hz
      · rw [List.append_assoc]
        cases c with
        | nil => exact Or.inl ⟨hposition, rfl⟩
        | cons y c =>
            refine Or.inr (Or.inl ⟨?_, ?_⟩)
            · rw [hposition, List.length_cons]
              omega
            · rw [hposition, Nat.add_sub_cancel_left]
              exact swapForward_append

end Order

/-- Rotating an element to the front of those before it. -/
theorem rotateAt_back :
    rotateAt (l₁ ++ (l₂ ++ a :: l₃)) l₁.length (l₁.length + l₂.length)
      (l₁.length + l₂.length + 1) = l₁ ++ a :: (l₂ ++ l₃) := by
  have hmiddle : (l₁ ++ (l₂ ++ a :: l₃)).drop (l₁.length + l₂.length) = a :: l₃ := by
    rw [← List.drop_drop, List.drop_left, List.drop_left]
  rw [rotateAt, List.take_left, hmiddle, List.drop_left, Nat.add_sub_cancel_left,
    Nat.add_sub_cancel_left, List.take_left, ← List.drop_drop, hmiddle]
  simp

/-- Rotating an element behind those after it. -/
theorem rotateAt_forth :
    rotateAt (l₁ ++ a :: (l₂ ++ l₃)) l₁.length (l₁.length + 1)
      (l₁.length + 1 + l₂.length) = l₁ ++ (l₂ ++ a :: l₃) := by
  have hmiddle : (l₁ ++ a :: (l₂ ++ l₃)).drop (l₁.length + 1) = l₂ ++ l₃ := by
    rw [← List.drop_drop, List.drop_left, List.drop_one, List.tail_cons]
  rw [rotateAt, List.take_left, hmiddle, List.drop_left, Nat.add_sub_cancel_left,
    Nat.add_sub_cancel_left, List.take_left, ← List.drop_drop, hmiddle, List.drop_left]
  simp

/-! ## Arranging by keys -/

/-- What is left after the first element is taken, where another was put in its place. -/
def brought : List α → List α → List α
  | [], l₂ => l₂
  | a :: l₁, l₂ => l₁ ++ a :: l₂

theorem brought_perm : (brought l₁ l₂).Perm (l₁ ++ l₂) := by
  cases l₁ with
  | nil => exact .refl l₂
  | cons a l₁ => exact List.perm_middle

/-- The first element is swapped with the one that is searched for. -/
theorem swapAt_brought :
    (if l₁.length = 0 then l ++ (l₁ ++ x :: l₂)
      else swapAt (l ++ (l₁ ++ x :: l₂)) l.length (l.length + l₁.length)) =
      l ++ x :: brought l₁ l₂ := by
  cases l₁ with
  | nil => rfl
  | cons a l₁ => exact swapAt_append

variable [DecidableEq κ] (key : α → κ)

/-- From a position on, an element with each of the keys in turn: it is swapped with the one
at the position where it is another.  The flag is raised where one is swapped, and `none`
stands for a key that is not there. -/
def arrange : List κ → Nat → List α → Bool → Option (List α × Bool)
  | [], _, l, changed => some (l, changed)
  | k :: ks, position, l, changed =>
      let i := findFrom (key · = k) l position
      if i = l.length then none
      else if i ≠ position then arrange ks (position + 1) (swapAt l position i) true
      else arrange ks (position + 1) l changed

variable {key} {k : κ} {ks : List κ} {done rest : List α} {changed : Bool}

theorem arrange_cons_of_none (h : ∀ y ∈ rest, key y ≠ k) :
    arrange key (k :: ks) done.length (done ++ rest) changed = none := by
  have hfind : rest.findIdx (key · = k) = rest.length :=
    findIdx_of_none fun y hy => decide_eq_false (h y hy)
  rw [arrange, findFrom_append, hfind, List.length_append, if_pos rfl]

/-- **One key.** The element with it comes next, and another takes its place. -/
theorem arrange_cons (hbefore : ∀ y ∈ l₁, key y ≠ k) (hx : key x = k) :
    arrange key (k :: ks) done.length (done ++ (l₁ ++ x :: l₂)) changed =
      arrange key ks (done ++ [x]).length ((done ++ [x]) ++ brought l₁ l₂)
        (changed || decide (l₁ ≠ [])) := by
  have hfind : (l₁ ++ x :: l₂).findIdx (key · = k) = l₁.length :=
    findIdx_append_cons (fun y hy => decide_eq_false (hbefore y hy)) (decide_eq_true hx)
  have hlength : done.length + l₁.length ≠ (done ++ (l₁ ++ x :: l₂)).length := by
    simp only [List.length_append, List.length_cons]
    omega
  rw [arrange, findFrom_append, hfind, if_neg hlength, List.length_append, List.length_singleton,
    List.append_assoc, List.singleton_append, ← swapAt_brought]
  cases l₁ with
  | nil => simp
  | cons a l₁ => simp

/-- **What is arranged**: the first keys are those that were asked for, the elements are the
same, and none is swapped unless the flag says so. -/
theorem arrange_spec {l : List α} {changed' : Bool}
    (h : arrange key ks done.length (done ++ rest) changed = some (l, changed')) :
    ∃ rest', l = done ++ rest' ∧ rest'.Perm rest ∧ ks <+: rest'.map key ∧
      (changed' = false → changed = false ∧ rest' = rest) := by
  induction ks generalizing done rest changed with
  | nil =>
      obtain ⟨rfl, rfl⟩ := Prod.mk.inj (Option.some.inj h)
      exact ⟨rest, rfl, .refl _, List.nil_prefix, fun hc => ⟨hc, rfl⟩⟩
  | cons k ks ih =>
      by_cases hmem : ∃ y ∈ rest, decide (key y = k) = true
      · obtain ⟨before, x, after, rfl, hbefore, hx⟩ := exists_first hmem
        have hx := of_decide_eq_true hx
        rw [arrange_cons (fun y hy => of_decide_eq_false (hbefore y hy)) hx] at h
        obtain ⟨rest', rfl, hperm, hprefix, hsame⟩ := ih h
        refine ⟨x :: rest', by simp, ?_, ?_, fun hc => ?_⟩
        · exact ((hperm.trans brought_perm).cons x).trans List.perm_middle.symm
        · rw [List.map_cons, hx]
          exact (List.prefix_cons_inj k).mpr hprefix
        · obtain ⟨hflag, rfl⟩ := hsame hc
          rw [Bool.or_eq_false_iff] at hflag
          have hnil : before = [] := not_not.mp (of_decide_eq_false hflag.2)
          rw [hnil]
          exact ⟨hflag.1, rfl⟩
      · push Not at hmem
        rw [arrange_cons_of_none fun y hy heq => hmem y hy (decide_eq_true heq)] at h
        cases h

/-- Elements can be arranged by the keys that some of them have. -/
theorem isSome_arrange_iff :
    (arrange key ks done.length (done ++ rest) changed).isSome ↔ ks.Subperm (rest.map key) := by
  constructor
  · intro h
    obtain ⟨⟨l, changed'⟩, h⟩ := Option.isSome_iff_exists.mp h
    obtain ⟨rest', -, hperm, hprefix, -⟩ := arrange_spec h
    exact hprefix.sublist.subperm.trans (hperm.map key).subperm
  · intro h
    induction ks generalizing done rest changed with
    | nil => rfl
    | cons k ks ih =>
        obtain ⟨y, hy, hkey⟩ := List.mem_map.mp (h.subset List.mem_cons_self)
        obtain ⟨before, x, after, rfl, hbefore, hx⟩ :=
          exists_first (p := fun y => decide (key y = k)) ⟨y, hy, decide_eq_true hkey⟩
        have hx := of_decide_eq_true hx
        rw [arrange_cons (fun y hy => of_decide_eq_false (hbefore y hy)) hx]
        refine ih ?_
        have hkeys : (k :: (brought before after).map key).Perm
            ((before ++ x :: after).map key) := by
          rw [← hx, ← List.map_cons]
          exact ((brought_perm.cons x).trans List.perm_middle.symm).map key
        exact (List.subperm_cons k).mp (h.trans hkeys.symm.subperm)

end MessengerClient
