import Mathlib

/-!
# MessengerClient.Lib.Edges

Lists of which the elements at the edges are trimmed, those for which a test holds up to the first
one for which it does not, from both sides (`trimEdges`) or from the back.
-/

namespace MessengerClient

variable {α β : Type} {p : α → Bool} {x : α} {l t : List α}

def trimEdges (p : α → Bool) (l : List α) : List α := (l.dropWhile p).rdropWhile p

/-- The test holds for neither the first nor the last element. -/
structure EdgesKept (p : α → Bool) (l : List α) : Prop where
  head : ∀ x ∈ l.head?, p x = false
  last : ∀ x ∈ l.getLast?, p x = false

/-! ## Trimming once more -/

theorem last_rdropWhile (l : List α) : ∀ x ∈ (l.rdropWhile p).getLast?, p x = false := by
  intro x hx
  obtain ⟨hne, rfl⟩ := List.mem_getLast?_eq_getLast hx
  simpa using List.rdropWhile_last_not p l hne

theorem head_dropWhile (l : List α) : ∀ x ∈ (l.dropWhile p).head?, p x = false := by
  intro x hx
  have hnot := List.head?_dropWhile_not p l
  rw [Option.mem_def.mp hx] at hnot
  exact hnot

theorem edgesKept_trimEdges (p : α → Bool) (l : List α) : EdgesKept p (trimEdges p l) where
  head x hx := by
    obtain ⟨rest, hrest⟩ := List.rdropWhile_prefix p (l.dropWhile p)
    refine head_dropWhile l x ?_
    rw [trimEdges] at hx
    rw [← hrest, List.head?_append, Option.mem_def.mp hx]
    rfl
  last := last_rdropWhile _

theorem rdropWhile_of_last (h : ∀ x ∈ l.getLast?, p x = false) : l.rdropWhile p = l :=
  List.rdropWhile_eq_self_iff.mpr fun hl => by
    rw [h _ (List.getLast?_eq_some_getLast hl)]
    decide

@[simp] theorem rdropWhile_rdropWhile (p : α → Bool) (l : List α) :
    (l.rdropWhile p).rdropWhile p = l.rdropWhile p :=
  rdropWhile_of_last (last_rdropWhile l)

/-- Where neither edge passes the test, nothing is trimmed. -/
theorem EdgesKept.trimEdges_eq (h : EdgesKept p l) : trimEdges p l = l := by
  have hhead : l.dropWhile p = l := by
    cases l with
    | nil => rfl
    | cons a l => rw [List.dropWhile_cons, if_neg (by rw [h.head a rfl]; decide)]
  rw [trimEdges, hhead]
  exact rdropWhile_of_last h.last

@[simp] theorem trimEdges_trimEdges (p : α → Bool) (l : List α) :
    trimEdges p (trimEdges p l) = trimEdges p l :=
  (edgesKept_trimEdges p l).trimEdges_eq

theorem rdropWhile_cons_of_not (h : p x = false) :
    (x :: l).rdropWhile p = x :: l.rdropWhile p := by
  rw [← List.singleton_append, List.rdropWhile, List.reverse_append, List.dropWhile_append]
  split
  · next hnil =>
    have hl : l.rdropWhile p = [] := by
      rw [List.rdropWhile, List.isEmpty_iff.mp hnil]
      rfl
    rw [hl, List.reverse_singleton, List.dropWhile_cons_of_neg (by simp [h])]
    rfl
  · rw [List.reverse_append, List.rdropWhile]
    rfl

/-! ## What goes -/

/-- One list is another without some elements at its edges that pass the test. -/
def TrimmedTo (p : α → Bool) (l t : List α) : Prop :=
  ∃ a b, l = a ++ t ++ b ∧ (∀ x ∈ a, p x = true) ∧ ∀ x ∈ b, p x = true

theorem trimmedTo_rdropWhile (p : α → Bool) (l : List α) : TrimmedTo p l (l.rdropWhile p) := by
  refine ⟨[], (l.reverse.takeWhile p).reverse, ?_, by simp, fun x hx => ?_⟩
  · rw [List.nil_append, List.rdropWhile, ← List.reverse_append, List.takeWhile_append_dropWhile,
      List.reverse_reverse]
  · exact List.mem_takeWhile_imp (List.mem_reverse.mp hx)

theorem trimmedTo_trimEdges (p : α → Bool) (l : List α) : TrimmedTo p l (trimEdges p l) := by
  obtain ⟨a, b, heq, ha, hb⟩ := trimmedTo_rdropWhile p (l.dropWhile p)
  refine ⟨l.takeWhile p ++ a, b, ?_, fun x hx => ?_, hb⟩
  · rw [trimEdges, List.append_assoc, List.append_assoc, ← List.append_assoc a, ← heq,
      List.takeWhile_append_dropWhile]
  · exact (List.mem_append.mp hx).elim List.mem_takeWhile_imp (ha x)

namespace TrimmedTo

theorem refl (p : α → Bool) (l : List α) : TrimmedTo p l l := ⟨[], [], by simp⟩

theorem subset (h : TrimmedTo p l t) (hx : x ∈ t) : x ∈ l := by
  obtain ⟨a, b, rfl, -, -⟩ := h
  simp [hx]

/-- What does not pass the test stays. -/
theorem mem (h : TrimmedTo p l t) (hx : x ∈ l) (hp : p x = false) : x ∈ t := by
  obtain ⟨a, b, rfl, ha, hb⟩ := h
  have hfront : x ∉ a := fun hmem => by simp [ha x hmem] at hp
  have hback : x ∉ b := fun hmem => by simp [hb x hmem] at hp
  simpa [hfront, hback] using hx

theorem any_eq (h : TrimmedTo p l t) {f : α → Bool} (hf : ∀ x ∈ l, p x = true → f x = false) :
    t.any f = l.any f := by
  obtain ⟨a, b, rfl, ha, hb⟩ := h
  have hfront : a.any f = false := by
    rw [List.any_eq_false]
    exact fun x hx => by simp [hf x (by simp [hx]) (ha x hx)]
  have hback : b.any f = false := by
    rw [List.any_eq_false]
    exact fun x hx => by simp [hf x (by simp [hx]) (hb x hx)]
  rw [List.any_append, List.any_append, hfront, hback, Bool.false_or, Bool.or_false]

end TrimmedTo

end MessengerClient
