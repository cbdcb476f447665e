import Mathlib.Data.List.Sort
import Mathlib.Algebra.Order.Ring.Int

/-!
# MessengerClient.Lib.FlatMap

A map kept as a list of entries with strictly growing keys — the documented
behaviour of a sorted-vector map: `emplace` never overwrites, iteration goes in
key order, `erase(begin())` drops the smallest key.  The order of the keys is a
field of the structure, so every operation below has to re-establish it and no
later proof has to assume it.

All later proofs read a map through `find?`; the `find?_*` lemmas are the whole
interface, and `FlatMap.ext_find?` turns equal lookups into equal maps.
-/

namespace MessengerClient

/-- Entries sorted by strictly growing keys. -/
@[ext] structure FlatMap (K V : Type*) [LinearOrder K] where
  entries : List (K × V)
  sorted : entries.Pairwise (fun a b => a.1 < b.1)

namespace FlatMap

variable {K V W : Type*} [LinearOrder K]

instance [DecidableEq V] : DecidableEq (FlatMap K V) := fun a b =>
  decidable_of_iff (a.entries = b.entries) FlatMap.ext_iff.symm

/-! ## Lists of entries -/

/-- The value stored under `k` in a list of entries. -/
def lookup (k : K) : List (K × V) → Option V
  | [] => none
  | e :: es => if e.1 = k then some e.2 else lookup k es

/-- Insert in key order; an entry already stored under `k` stays. -/
def insertNew (k : K) (v : V) : List (K × V) → List (K × V)
  | [] => [(k, v)]
  | e :: es =>
      if k < e.1 then (k, v) :: e :: es
      else if k = e.1 then e :: es
      else e :: insertNew k v es

theorem mem_of_lookup {k : K} {v : V} {es : List (K × V)} (h : lookup k es = some v) :
    (k, v) ∈ es := by
  induction es with
  | nil => simp [lookup] at h
  | cons e es ih =>
      rw [lookup] at h
      split at h
      · next he =>
        obtain rfl : e.2 = v := Option.some.inj h
        subst he
        exact List.mem_cons_self
      · exact List.mem_cons_of_mem _ (ih h)

theorem lookup_of_mem {k : K} {v : V} {es : List (K × V)}
    (hs : es.Pairwise (fun a b => a.1 < b.1)) (h : (k, v) ∈ es) : lookup k es = some v := by
  induction es with
  | nil => simp at h
  | cons e es ih =>
      rw [lookup]
      obtain ⟨hhead, htail⟩ := List.pairwise_cons.mp hs
      cases List.mem_cons.mp h with
      | inl he => subst he; simp
      | inr hm =>
          have hne : e.1 ≠ k := ne_of_lt (hhead _ hm)
          rw [if_neg hne]
          exact ih htail hm

omit [LinearOrder K] in
/-- With keys that differ, a filter by one key takes out one entry. -/
theorem perm_cons_filter [DecidableEq K] {es : List (K × V)} (h : (es.map Prod.fst).Nodup)
    {e : K × V} (he : e ∈ es) : es.Perm (e :: es.filter (·.1 ≠ e.1)) := by
  obtain ⟨before, after, rfl⟩ := List.append_of_mem he
  have hperm : (before ++ e :: after).Perm (e :: (before ++ after)) := List.perm_middle
  have hnodup := (hperm.map Prod.fst).nodup_iff.mp h
  have hne : (before ++ after).filter (·.1 ≠ e.1) = before ++ after :=
    List.filter_eq_self.mpr fun e' he' => decide_eq_true fun heq =>
      (List.nodup_cons.mp hnodup).1 (heq ▸ List.mem_map_of_mem he')
  rw [List.filter_append] at hne
  rw [List.filter_append, List.filter_cons_of_neg (by simp), hne]
  exact hperm

theorem lookup_eq_none_iff {k : K} {es : List (K × V)} :
    lookup k es = none ↔ ∀ e ∈ es, e.1 ≠ k := by
  induction es with
  | nil => simp [lookup]
  | cons e es ih =>
      rw [lookup]
      split
      · next he => simp [he]
      · next he => simp [ih, he]

theorem mem_insertNew {k : K} {v : V} {e : K × V} {es : List (K × V)}
    (h : e ∈ insertNew k v es) : e = (k, v) ∨ e ∈ es := by
  induction es with
  | nil => simpa [insertNew] using h
  | cons d es ih =>
      rw [insertNew] at h
      split at h
      · simpa using h
      · split at h
        · exact .inr h
        · cases List.mem_cons.mp h with
          | inl hd => exact .inr (hd ▸ List.mem_cons_self)
          | inr hm => exact (ih hm).imp_right (List.mem_cons_of_mem _)

theorem pairwise_insertNew (k : K) (v : V) {es : List (K × V)}
    (hs : es.Pairwise (fun a b => a.1 < b.1)) :
    (insertNew k v es).Pairwise (fun a b => a.1 < b.1) := by
  induction es with
  | nil => simp [insertNew]
  | cons e es ih =>
      obtain ⟨hhead, htail⟩ := List.pairwise_cons.mp hs
      rw [insertNew]
      split
      · next hlt =>
        refine List.pairwise_cons.mpr ⟨fun d hd => ?_, hs⟩
        cases List.mem_cons.mp hd with
        | inl h => exact h ▸ hlt
        | inr h => exact hlt.trans (hhead d h)
      · next hlt =>
        split
        · exact hs
        · next hne =>
          refine List.pairwise_cons.mpr ⟨fun d hd => ?_, ih htail⟩
          cases mem_insertNew hd with
          | inl h => exact h ▸ lt_of_le_of_ne (not_lt.mp hlt) (Ne.symm hne)
          | inr h => exact hhead d h

theorem lookup_insertNew (k k' : K) (v : V) (es : List (K × V))
    (hs : es.Pairwise (fun a b => a.1 < b.1)) :
    lookup k' (insertNew k v es) =
      if k' = k then some ((lookup k es).getD v) else lookup k' es := by
  induction es with
  | nil => by_cases h : k' = k <;> simp [insertNew, lookup, h, Ne.symm]
  | cons e es ih =>
      obtain ⟨hhead, htail⟩ := List.pairwise_cons.mp hs
      rw [insertNew]
      split
      · next hlt =>
        have hnone : lookup k (e :: es) = none := by
          rw [lookup_eq_none_iff]
          intro d hd
          cases List.mem_cons.mp hd with
          | inl h => exact h ▸ ne_of_gt hlt
          | inr h => exact ne_of_gt (hlt.trans (hhead d h))
        by_cases h : k' = k
        · subst h; rw [if_pos rfl, hnone]; simp [lookup]
        · rw [lookup, if_neg (Ne.symm h), if_neg h]
      · next hlt =>
        split
        · next heq =>
          subst heq
          by_cases h : k' = e.1
          · subst h; simp [lookup]
          · rw [if_neg h]
        · next hne =>
          have hek : e.1 ≠ k := Ne.symm hne
          rw [lookup, ih htail, lookup, lookup, if_neg hek]
          by_cases h : k' = k
          · subst h; simp [hek]
          · simp [h]

theorem insertNew_perm {k : K} {v : V} {es : List (K × V)} (h : lookup k es = none) :
    (insertNew k v es).Perm ((k, v) :: es) := by
  induction es with
  | nil => rfl
  | cons e es ih =>
      have hne : e.1 ≠ k := lookup_eq_none_iff.mp h e List.mem_cons_self
      rw [lookup, if_neg hne] at h
      rw [insertNew, if_neg (Ne.symm hne)]
      split
      · rfl
      · exact ((ih h).cons e).trans (List.Perm.swap ..)

/-! ## The operations -/

/-- The map with no entries. -/
def empty : FlatMap K V := ⟨[], List.Pairwise.nil⟩

instance : EmptyCollection (FlatMap K V) := ⟨empty⟩
instance : Inhabited (FlatMap K V) := ⟨empty⟩

/-- The value stored under `k`. -/
def find? (m : FlatMap K V) (k : K) : Option V := lookup k m.entries

/-- Whether something is stored under `k`. -/
def contains (m : FlatMap K V) (k : K) : Bool := (m.find? k).isSome

/-- Store `v` under `k` unless `k` is taken. -/
def emplace (m : FlatMap K V) (k : K) (v : V) : FlatMap K V :=
  ⟨insertNew k v m.entries, pairwise_insertNew k v m.sorted⟩

/-- Keep the entries that satisfy `p`. -/
def filter (m : FlatMap K V) (p : K × V → Bool) : FlatMap K V :=
  ⟨m.entries.filter p, m.sorted.filter p⟩

/-- Drop the entry stored under `k`. -/
def erase (m : FlatMap K V) (k : K) : FlatMap K V := m.filter (fun e => e.1 ≠ k)

/-- Store `v` under `k`, over what was there. -/
def insert (m : FlatMap K V) (k : K) (v : V) : FlatMap K V := (m.erase k).emplace k v

/-- Drop the `n` entries with the smallest keys. -/
def dropFront (m : FlatMap K V) (n : Nat) : FlatMap K V :=
  ⟨m.entries.drop n, m.sorted.sublist (List.drop_sublist n _)⟩

/-- Number of entries. -/
def size (m : FlatMap K V) : Nat := m.entries.length

/-- Apply `f` to every stored value. -/
def mapVal (f : V → W) (m : FlatMap K V) : FlatMap K W :=
  ⟨m.entries.map fun e => (e.1, f e.2), m.sorted.map _ fun _ _ h => h⟩

/-- Apply `f` to every entry. -/
def mapEntries (f : K → V → W) (m : FlatMap K V) : FlatMap K W :=
  ⟨m.entries.map fun e => (e.1, f e.1 e.2), m.sorted.map _ fun _ _ h => h⟩

/-- Change the value stored under `k`, where it is. -/
def modify (m : FlatMap K V) (k : K) (f : V → V) : FlatMap K V :=
  ⟨m.entries.map fun e => (e.1, if e.1 = k then f e.2 else e.2), m.sorted.map _ fun _ _ h => h⟩

/-- The entry with the smallest key. -/
def front? (m : FlatMap K V) : Option (K × V) := m.entries.head?

/-- The keys, in order. -/
def keys (m : FlatMap K V) : List K := m.entries.map Prod.fst

/-- Emplace a list of entries, in order. -/
def emplaceAll (m : FlatMap K V) (es : List (K × V)) : FlatMap K V :=
  es.foldl (fun m e => m.emplace e.1 e.2) m

/-! ## Reading through `find?` -/

theorem mem_entries_iff {m : FlatMap K V} {k : K} {v : V} :
    (k, v) ∈ m.entries ↔ m.find? k = some v :=
  ⟨lookup_of_mem m.sorted, mem_of_lookup⟩

theorem find?_eq_none_iff {m : FlatMap K V} {k : K} :
    m.find? k = none ↔ ∀ e ∈ m.entries, e.1 ≠ k := lookup_eq_none_iff

/-- Maps with equal lookups are equal. -/
theorem ext_find? {m m' : FlatMap K V} (h : ∀ k, m.find? k = m'.find? k) : m = m' := by
  refine FlatMap.ext ?_
  have : Std.Irrefl (fun a b : K × V => a.1 < b.1) := ⟨fun a => lt_irrefl a.1⟩
  refine List.Pairwise.eq_of_mem_iff m.sorted m'.sorted fun e => ?_
  rw [mem_entries_iff, mem_entries_iff, h]

@[simp] theorem find?_empty (k : K) : (∅ : FlatMap K V).find? k = none := rfl

@[simp] theorem entries_empty : (∅ : FlatMap K V).entries = [] := rfl

@[simp] theorem size_empty : (∅ : FlatMap K V).size = 0 := rfl

theorem find?_emplace (m : FlatMap K V) (k k' : K) (v : V) :
    (m.emplace k v).find? k' = if k' = k then some ((m.find? k).getD v) else m.find? k' :=
  lookup_insertNew k k' v m.entries m.sorted

@[simp] theorem find?_emplace_ne (m : FlatMap K V) {k k' : K} (v : V) (h : k' ≠ k) :
    (m.emplace k v).find? k' = m.find? k' := by
  rw [find?_emplace, if_neg h]

theorem find?_emplace_self {m : FlatMap K V} {k : K} (v : V) (h : m.find? k = none) :
    (m.emplace k v).find? k = some v := by
  rw [find?_emplace, if_pos rfl, h, Option.getD_none]

/-- What is stored stays stored. -/
theorem find?_emplace_of_some {m : FlatMap K V} {k k' : K} {v' : V} (v : V)
    (h : m.find? k' = some v') : (m.emplace k v).find? k' = some v' := by
  rw [find?_emplace]
  split
  · next heq => rw [← heq, h, Option.getD_some]
  · exact h

theorem mem_emplace {m : FlatMap K V} {k : K} (v : V) {e : K × V} (he : e ∈ m.entries) :
    e ∈ (m.emplace k v).entries :=
  mem_entries_iff.mpr (find?_emplace_of_some v (mem_entries_iff.mp he))

/-- What holds of the entries and of those that are emplaced. -/
theorem forall_emplaceAll {P : K × V → Prop} {m : FlatMap K V} {es : List (K × V)}
    (hm : ∀ e ∈ m.entries, P e) (hes : ∀ e ∈ es, P e) : ∀ e ∈ (m.emplaceAll es).entries, P e := by
  induction es generalizing m with
  | nil => exact hm
  | cons e es ih =>
      obtain ⟨he, hes⟩ := List.forall_mem_cons.mp hes
      refine ih (fun d hd => ?_) hes
      cases mem_insertNew hd with
      | inl heq => exact heq ▸ he
      | inr hold => exact hm d hold

theorem emplace_entries_ne_nil (m : FlatMap K V) (k : K) (v : V) :
    (m.emplace k v).entries ≠ [] := by
  intro h
  have hk : (m.emplace k v).find? k = none := by rw [find?, h]; rfl
  rw [find?_emplace, if_pos rfl] at hk
  simp at hk

theorem emplace_ne_empty (m : FlatMap K V) (k : K) (v : V) : m.emplace k v ≠ ∅ :=
  fun h => emplace_entries_ne_nil m k v (congrArg entries h)

/-- A fresh key adds one entry. -/
theorem emplace_entries_perm {m : FlatMap K V} {k : K} (v : V) (h : m.find? k = none) :
    (m.emplace k v).entries.Perm ((k, v) :: m.entries) := insertNew_perm h

theorem find?_filter (m : FlatMap K V) (p : K × V → Bool) (k : K) :
    (m.filter p).find? k = (m.find? k).filter (fun v => p (k, v)) := by
  ext v
  rw [← mem_entries_iff, filter, List.mem_filter, mem_entries_iff, Option.filter_eq_some_iff]

theorem find?_erase (m : FlatMap K V) (k k' : K) :
    (m.erase k).find? k' = if k' = k then none else m.find? k' := by
  rw [erase, find?_filter]
  by_cases h : k' = k <;> cases m.find? k' <;> simp [h]

@[simp] theorem find?_erase_self (m : FlatMap K V) (k : K) : (m.erase k).find? k = none := by
  rw [find?_erase, if_pos rfl]

@[simp] theorem find?_erase_ne (m : FlatMap K V) {k k' : K} (h : k' ≠ k) :
    (m.erase k).find? k' = m.find? k' := by
  rw [find?_erase, if_neg h]

/-- A key that is stored takes one entry with it. -/
theorem erase_entries_perm {m : FlatMap K V} {k : K} {v : V} (h : m.find? k = some v) :
    m.entries.Perm ((k, v) :: (m.erase k).entries) :=
  perm_cons_filter (List.pairwise_map.mpr (m.sorted.imp fun hlt => hlt.ne))
    (mem_entries_iff.mpr h)

theorem find?_insert (m : FlatMap K V) (k k' : K) (v : V) :
    (m.insert k v).find? k' = if k' = k then some v else m.find? k' := by
  rw [insert, find?_emplace, find?_erase_self, Option.getD_none]
  by_cases h : k' = k
  · rw [if_pos h, if_pos h]
  · rw [if_neg h, if_neg h, find?_erase_ne m h]

theorem entries_eq_nil_iff {m : FlatMap K V} : m.entries = [] ↔ m = ∅ :=
  ⟨fun h => FlatMap.ext h, fun h => h ▸ rfl⟩

theorem front?_eq_none_iff {m : FlatMap K V} : m.front? = none ↔ m = ∅ := by
  rw [front?, List.head?_eq_none_iff, entries_eq_nil_iff]

/-- The front entry is stored and has the smallest key. -/
theorem front?_spec {m : FlatMap K V} {k : K} {v : V} (h : m.front? = some (k, v)) :
    m.find? k = some v ∧ ∀ k' v', m.find? k' = some v' → k ≤ k' := by
  obtain ⟨es, hes⟩ := List.head?_eq_some_iff.mp h
  have hs := m.sorted
  rw [hes, List.pairwise_cons] at hs
  refine ⟨mem_entries_iff.mp (hes ▸ List.mem_cons_self), fun k' v' hk' => ?_⟩
  have hmem := mem_entries_iff.mpr hk'
  rw [hes] at hmem
  cases List.mem_cons.mp hmem with
  | inl heq => exact (Prod.mk.inj heq).1.ge
  | inr htail => exact (hs.1 _ htail).le

/-- Dropping the front entry erases its key. -/
theorem dropFront_one {m : FlatMap K V} {k : K} {v : V} (h : m.front? = some (k, v)) :
    m.dropFront 1 = m.erase k := by
  obtain ⟨es, hes⟩ := List.head?_eq_some_iff.mp h
  have hs := m.sorted
  rw [hes, List.pairwise_cons] at hs
  refine FlatMap.ext ?_
  have hkeep : es.filter (fun e => e.1 ≠ k) = es :=
    List.filter_eq_self.mpr fun e he => by simpa using (hs.1 e he).ne'
  change m.entries.drop 1 = m.entries.filter (fun e => e.1 ≠ k)
  rw [hes, List.drop_one, List.tail_cons, List.filter_cons_of_neg (by simp), hkeep]

theorem size_dropFront_one {m : FlatMap K V} {e : K × V} (h : m.front? = some e) :
    (m.dropFront 1).size < m.size := by
  obtain ⟨es, hes⟩ := List.head?_eq_some_iff.mp h
  simp [size, dropFront, hes]

@[simp] theorem size_dropFront (m : FlatMap K V) (n : Nat) :
    (m.dropFront n).size = m.size - n := List.length_drop

theorem dropFront_dropFront (m : FlatMap K V) (i j : Nat) :
    (m.dropFront i).dropFront j = m.dropFront (i + j) := FlatMap.ext List.drop_drop

theorem find?_of_dropFront {m : FlatMap K V} {n : Nat} {k : K} {v : V}
    (h : (m.dropFront n).find? k = some v) : m.find? k = some v :=
  mem_entries_iff.mp (List.mem_of_mem_drop (mem_entries_iff.mpr h))

/-- What is dropped has a smaller key than what is left. -/
theorem lt_of_dropFront {m : FlatMap K V} {n : Nat} {k k' : K} {v v' : V}
    (hk : m.find? k = some v) (hdropped : (m.dropFront n).find? k = none)
    (hk' : (m.dropFront n).find? k' = some v') : k < k' := by
  have hsorted := m.sorted
  rw [← List.take_append_drop n m.entries, List.pairwise_append] at hsorted
  have hmem := mem_entries_iff.mpr hk
  rw [← List.take_append_drop n m.entries, List.mem_append] at hmem
  cases hmem with
  | inl htaken => exact hsorted.2.2 _ htaken _ (mem_entries_iff.mpr hk')
  | inr hleft =>
      have hkept : (m.dropFront n).find? k = some v := lookup_of_mem (m.dropFront n).sorted hleft
      simp [hkept] at hdropped

theorem find?_mapEntries (f : K → V → W) (m : FlatMap K V) (k : K) :
    (m.mapEntries f).find? k = (m.find? k).map (f k) := by
  ext w
  rw [← mem_entries_iff, mapEntries, List.mem_map, Option.map_eq_some_iff]
  constructor
  · rintro ⟨⟨k', v⟩, hm, he⟩
    obtain ⟨rfl, rfl⟩ := Prod.mk.inj he
    exact ⟨v, mem_entries_iff.mp hm, rfl⟩
  · rintro ⟨v, hv, rfl⟩
    exact ⟨(k, v), mem_entries_iff.mpr hv, rfl⟩

theorem find?_mapVal (f : V → W) (m : FlatMap K V) (k : K) :
    (m.mapVal f).find? k = (m.find? k).map f := by
  ext w
  rw [← mem_entries_iff, mapVal, List.mem_map, Option.map_eq_some_iff]
  constructor
  · rintro ⟨⟨k', v⟩, hm, he⟩
    obtain ⟨rfl, rfl⟩ := Prod.mk.inj he
    exact ⟨v, mem_entries_iff.mp hm, rfl⟩
  · rintro ⟨v, hv, rfl⟩
    exact ⟨(k, v), mem_entries_iff.mpr hv, rfl⟩

@[simp] theorem contains_iff {m : FlatMap K V} {k : K} :
    m.contains k = true ↔ ∃ v, m.find? k = some v := Option.isSome_iff_exists

theorem contains_eq_false_iff {m : FlatMap K V} {k : K} :
    m.contains k = false ↔ m.find? k = none := by
  rw [contains, Option.isSome_eq_false_iff, Option.isNone_iff_eq_none]

theorem mem_keys_iff {m : FlatMap K V} {k : K} : k ∈ m.keys ↔ ∃ v, m.find? k = some v := by
  simp only [keys, List.mem_map, Prod.exists, exists_and_right, exists_eq_right, mem_entries_iff]

theorem nodup_keys (m : FlatMap K V) : m.keys.Nodup :=
  (List.pairwise_map.mpr m.sorted).imp ne_of_lt

theorem eq_empty_iff {m : FlatMap K V} : m = ∅ ↔ ∀ k, m.find? k = none := by
  constructor
  · rintro rfl k; rfl
  · exact fun h => ext_find? h

/-- What is stored already wins, then the first entry of the list. -/
theorem find?_emplaceAll (m : FlatMap K V) (es : List (K × V)) (k : K) :
    (m.emplaceAll es).find? k = (m.find? k).or (lookup k es) := by
  induction es generalizing m with
  | nil => simp [emplaceAll, lookup]
  | cons e es ih =>
      have hstep : m.emplaceAll (e :: es) = (m.emplace e.1 e.2).emplaceAll es := rfl
      rw [hstep, ih, find?_emplace, lookup]
      by_cases h : k = e.1
      · subst h
        cases m.find? e.1 <;> simp
      · rw [if_neg h, if_neg (Ne.symm h)]

theorem find?_emplaceAll_entries (m m' : FlatMap K V) (k : K) :
    (m.emplaceAll m'.entries).find? k = (m.find? k).or (m'.find? k) := find?_emplaceAll m _ k

theorem erase_of_find?_eq_none {m : FlatMap K V} {k : K} (h : m.find? k = none) :
    m.erase k = m := by
  refine ext_find? fun k' => ?_
  rw [find?_erase]
  split
  · next hk => rw [hk, h]
  · rfl

theorem size_insert_le (m : FlatMap K V) (k : K) (v : V) : (m.insert k v).size ≤ m.size + 1 := by
  have hperm := (emplace_entries_perm v (find?_erase_self m k)).length_eq
  have hle : (m.erase k).size ≤ m.size := List.length_filter_le _ _
  rw [List.length_cons] at hperm
  exact hperm.le.trans (Nat.succ_le_succ hle)

/-- New keys are emplaced where they are inserted. -/
theorem foldl_insert_eq_emplaceAll {m : FlatMap K V} {es : List (K × V)}
    (hes : (es.map Prod.fst).Nodup) (hm : ∀ e ∈ es, m.find? e.1 = none) :
    es.foldl (fun m e => m.insert e.1 e.2) m = m.emplaceAll es := by
  induction es generalizing m with
  | nil => rfl
  | cons e es ih =>
      obtain ⟨hnot, hes⟩ := List.nodup_cons.mp hes
      have hinsert : m.insert e.1 e.2 = m.emplace e.1 e.2 := by
        rw [insert, erase_of_find?_eq_none (hm e List.mem_cons_self)]
      rw [List.foldl_cons, hinsert, ih hes]
      · rfl
      · intro e' he'
        have hne : e'.1 ≠ e.1 := fun heq => hnot (heq ▸ List.mem_map_of_mem he')
        rw [find?_emplace_ne m e.2 hne]
        exact hm e' (List.mem_cons_of_mem e he')

theorem emplaceAll_ne_empty {m : FlatMap K V} (es : List (K × V)) (h : m ≠ ∅) :
    m.emplaceAll es ≠ ∅ := by
  intro hempty
  refine h (eq_empty_iff.mpr fun k => ?_)
  have hk := eq_empty_iff.mp hempty k
  rw [find?_emplaceAll] at hk
  exact (Option.or_eq_none_iff.mp hk).1

/-- A map is rebuilt from its entries. -/
@[simp] theorem empty_emplaceAll_entries (m : FlatMap K V) :
    (∅ : FlatMap K V).emplaceAll m.entries = m :=
  ext_find? fun k => by rw [find?_emplaceAll, find?_empty, Option.none_or]; rfl

/-- Erasing keys one by one keeps the entries with another key. -/
theorem foldl_erase (m : FlatMap K V) (ks : List K) :
    ks.foldl erase m = m.filter fun e => e.1 ∉ ks := by
  induction ks generalizing m with
  | nil => exact ext_find? fun k => by rw [find?_filter]; cases h : m.find? k <;> simp [h, Option.filter]
  | cons x ks ih =>
      rw [List.foldl_cons, ih]
      refine ext_find? fun k => ?_
      rw [find?_filter, find?_filter, find?_erase]
      by_cases h : k = x
      · subst h
        cases m.find? k <;> simp
      · cases m.find? k <;> simp [h]

/-- A value is changed where it is, and nothing else is. -/
theorem modify_split {m : FlatMap K V} {k : K} {v : V} (f : V → V) (h : m.find? k = some v) :
    ∃ front back, m.entries = front ++ (k, v) :: back ∧
      (m.modify k f).entries = front ++ (k, f v) :: back := by
  obtain ⟨front, back, hsplit⟩ := List.append_of_mem (mem_entries_iff.mpr h)
  have hsorted := m.sorted
  rw [hsplit, List.pairwise_append, List.pairwise_cons] at hsorted
  obtain ⟨-, ⟨hback, -⟩, hfront⟩ := hsorted
  have hsame {es : List (K × V)} (hne : ∀ e ∈ es, e.1 ≠ k) :
      es.map (fun e => (e.1, if e.1 = k then f e.2 else e.2)) = es := by
    have hid : es.map (fun e => (e.1, if e.1 = k then f e.2 else e.2)) = es.map id :=
      List.map_congr_left fun e he => by simp [hne e he]
    rw [hid, List.map_id]
  refine ⟨front, back, hsplit, ?_⟩
  show m.entries.map (fun e => (e.1, if e.1 = k then f e.2 else e.2)) = _
  rw [hsplit, List.map_append, List.map_cons,
    hsame fun e he => (hfront e he (k, v) List.mem_cons_self).ne,
    hsame fun e he => (hback e he).ne']
  simp

/-- Where the values are listed one after another, those of one key stay together. -/
theorem filter_flatMap_entries {E : Type*} (m : FlatMap K V) (f : K × V → List E) (key : E → K)
    (hkey : ∀ e ∈ m.entries, ∀ a ∈ f e, key a = e.1) {k : K} {p : E → Bool}
    (hp : ∀ a, p a = true ↔ key a = k) :
    (m.entries.flatMap f).filter p = ((m.find? k).map fun v => f (k, v)).getD [] := by
  obtain ⟨es, hs⟩ := m
  unfold find?
  induction es with
  | nil => rfl
  | cons e es ih =>
      rw [List.pairwise_cons] at hs
      rw [List.flatMap_cons, List.filter_append, lookup]
      have hhead (a : E) (ha : a ∈ f e) : p a = true ↔ e.1 = k := by
        rw [hp, hkey e List.mem_cons_self a ha]
      have htail := ih hs.2 fun e' he' => hkey e' (List.mem_cons_of_mem e he')
      split
      · next he =>
          have hall : (f e).filter p = f e :=
            List.filter_eq_self.mpr fun a ha => (hhead a ha).mpr he
          have hnone : lookup k es = none :=
            lookup_eq_none_iff.mpr fun e' he' => by rw [← he]; exact (hs.1 e' he').ne'
          rw [hall, htail, hnone, ← he]
          simp
      · next he =>
          have hnil : (f e).filter p = [] :=
            List.filter_eq_nil_iff.mpr fun a ha h => he ((hhead a ha).mp h)
          rw [hnil, htail, List.nil_append]

theorem size_filter_le (m : FlatMap K V) (p : K × V → Bool) : (m.filter p).size ≤ m.size :=
  List.length_filter_le ..

end FlatMap

end MessengerClient
