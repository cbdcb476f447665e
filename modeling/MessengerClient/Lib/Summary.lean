import Mathlib

/-!
# MessengerClient.Lib.Summary

One element that stands for a list under an associative operation: folding the list from
any start comes to the same as the operation with that element.  Where the operation is
idempotent too, parts that are folded from one start each can be put together.
-/

namespace MessengerClient

variable {α : Type} (f : α → α → α)

/-- `m` stands for the list under `f`. -/
def Summary (l : List α) (m : α) : Prop := ∀ start, l.foldl f start = f start m

variable {f} {l l₁ l₂ : List α} {m m₁ m₂ start : α}

theorem Summary.singleton (a : α) : Summary f [a] a := fun _ => rfl

/-- Lists that follow one another. -/
theorem Summary.append [Std.Associative f] (h₁ : Summary f l₁ m₁) (h₂ : Summary f l₂ m₂) :
    Summary f (l₁ ++ l₂) (f m₁ m₂) := fun start => by
  have hassoc : ∀ a b c, f (f a b) c = f a (f b c) := Std.Associative.assoc
  rw [List.foldl_append, h₁ start, h₂ (f start m₁), hassoc]

/-- What stands before the start stands before the fold. -/
theorem foldl_start [Std.Associative f] (a : α) :
    l.foldl f (f a start) = f a (l.foldl f start) := by
  have hassoc : ∀ a b c, f (f a b) c = f a (f b c) := Std.Associative.assoc
  induction l generalizing start with
  | nil => rfl
  | cons b l ih => rw [List.foldl_cons, List.foldl_cons, hassoc, ih]

/-- The start is in the fold already. -/
theorem start_foldl [Std.Associative f] [Std.IdempotentOp f] :
    f start (l.foldl f start) = l.foldl f start := by
  have hidem : f start start = start := Std.IdempotentOp.idempotent start
  conv_rhs => rw [← hidem]
  rw [foldl_start]

/-- **Two parts** of a list, each known up to the start. -/
theorem foldl_append_of_parts [Std.Associative f] [Std.Commutative f]
    (h₁ : l₁.foldl f start = f start m₁) (h₂ : l₂.foldl f start = f start m₂) :
    (l₁ ++ l₂).foldl f start = f start (f m₁ m₂) := by
  have hassoc : ∀ a b c, f (f a b) c = f a (f b c) := Std.Associative.assoc
  have hcomm : ∀ a b, f a b = f b a := Std.Commutative.comm
  calc (l₁ ++ l₂).foldl f start
    _ = l₂.foldl f (f m₁ start) := by rw [List.foldl_append, h₁, hcomm]
    _ = f m₁ (f start m₂) := by rw [foldl_start, h₂]
    _ = f start (f m₁ m₂) := by rw [← hassoc, hcomm m₁ start, hassoc]

/-- A maximum is not below a bound exactly where the start or an element is not. -/
theorem le_foldl_max_iff {α : Type} [LinearOrder α] {l : List α} {start bound : α} :
    bound ≤ l.foldl max start ↔ bound ≤ start ∨ ∃ x ∈ l, bound ≤ x := by
  induction l generalizing start with
  | nil => simp
  | cons a l ih =>
      rw [List.foldl_cons, ih, le_max_iff]
      simp only [List.mem_cons, exists_eq_or_imp, or_assoc]

end MessengerClient
