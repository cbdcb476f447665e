import Mathlib.Data.List.Nodup

/-!
# MessengerClient.Lib.Keys

Lists whose elements are told apart by a key: what is found under one key is one element or
none.
-/

namespace MessengerClient

namespace Keys

variable {α κ : Type*} [DecidableEq κ] {key : α → κ} {l : List α} {k : κ}

theorem filter_of_notMem (h : k ∉ l.map key) : (l.filter fun b => key b = k) = [] := by
  rw [List.filter_eq_nil_iff]
  intro b hb hkey
  exact h (List.mem_map.mpr ⟨b, hb, of_decide_eq_true hkey⟩)

theorem filter_of_mem (h : (l.map key).Nodup) {a : α} (ha : a ∈ l) :
    (l.filter fun b => key b = key a) = [a] := by
  induction l with
  | nil => cases ha
  | cons b l ih =>
      rw [List.map_cons, List.nodup_cons] at h
      cases ha with
      | head => rw [List.filter_cons_of_pos (by simp), filter_of_notMem h.1]
      | tail _ ha =>
          have hne : key b ≠ key a := fun heq => h.1 (heq ▸ List.mem_map_of_mem ha)
          rw [List.filter_cons_of_neg (by simp [hne]), ih h.2 ha]

/-- Under one key there is nothing, or the one element with this key. -/
theorem filter_cases (h : (l.map key).Nodup) (k : κ) :
    (k ∉ l.map key ∧ (l.filter fun b => key b = k) = []) ∨
      ∃ a ∈ l, key a = k ∧ (l.filter fun b => key b = k) = [a] := by
  by_cases hk : k ∈ l.map key
  · obtain ⟨a, ha, rfl⟩ := List.mem_map.mp hk
    exact .inr ⟨a, ha, rfl, filter_of_mem h ha⟩
  · exact .inl ⟨hk, filter_of_notMem hk⟩

end Keys

end MessengerClient
