import Mathlib.Data.List.Basic

/-!
# MessengerClient.Lib.Dict

A dictionary that keeps its keys in the order in which they came: a value that is set under
a key that is there takes the place of the one before.
-/

namespace MessengerClient

/-- The entries of a dictionary. -/
abbrev Dict (κ υ : Type*) := List (κ × υ)

namespace Dict

variable {κ υ : Type*} [DecidableEq κ]

def find? (d : Dict κ υ) (k : κ) : Option υ := (List.find? (·.1 = k) d).map Prod.snd

def keys (d : Dict κ υ) : List κ := List.map Prod.fst d

/-- `d[k] = v`. -/
def set (d : Dict κ υ) (k : κ) (v : υ) : Dict κ υ :=
  match d with
  | [] => [(k, v)]
  | e :: d => if e.1 = k then (k, v) :: d else e :: set d k v

/-- `del d[k]`. -/
def erase (d : Dict κ υ) (k : κ) : Dict κ υ := List.filter (·.1 ≠ k) d

/-- Every value is changed in place. -/
def mapValues (d : Dict κ υ) (f : υ → υ) : Dict κ υ := List.map (fun e => (e.1, f e.2)) d

variable {d : Dict κ υ} {k k' : κ} {v : υ}

@[simp] theorem find?_nil : find? ([] : Dict κ υ) k = none := rfl

theorem find?_cons (e : κ × υ) : find? (e :: d) k = if e.1 = k then some e.2 else find? d k := by
  by_cases h : e.1 = k <;> simp [find?, h]

@[simp] theorem find?_set : find? (set d k v) k' = if k = k' then some v else find? d k' := by
  induction d with
  | nil => simp [set, find?_cons]
  | cons e d ih =>
      rw [set]
      split
      · next h => grind [find?_cons]
      · next h => grind [find?_cons]

@[simp] theorem find?_erase : find? (erase d k) k' = if k = k' then none else find? d k' := by
  induction d with
  | nil => simp [erase]
  | cons e d ih =>
      rw [erase, List.filter_cons] at *
      grind [find?_cons, erase]

@[simp] theorem find?_mapValues (f : υ → υ) : find? (mapValues d f) k = (find? d k).map f := by
  induction d with
  | nil => rfl
  | cons e d ih =>
      rw [mapValues, List.map_cons, find?_cons, find?_cons]
      split
      · rfl
      · exact ih

theorem mem_keys_iff : k ∈ keys d ↔ ∃ v, find? d k = some v := by
  induction d with
  | nil => simp [keys]
  | cons e d ih =>
      rw [keys, List.map_cons, List.mem_cons, find?_cons]
      by_cases h : e.1 = k
      · simp [h]
      · simp only [if_neg h, ← ih]
        exact or_iff_right (Ne.symm h)

theorem mem_of_find? (h : find? d k = some v) : (k, v) ∈ d := by
  induction d with
  | nil => cases h
  | cons e d ih =>
      rw [find?_cons] at h
      split at h
      · next heq =>
        cases h
        exact heq ▸ List.mem_cons_self
      · exact List.mem_cons_of_mem e (ih h)

end Dict

end MessengerClient
