import MessengerClient.Streaming.Slices
import Mathlib.Data.List.Nodup
import Mathlib.Data.List.Perm.Subperm

/-!
# MessengerClient.Streaming.Parts

What is true of the parts of a file: where they start, how long they are, which of
them follow each other.  The header map covers the whole file, the map of a slice
covers its own piece of it.
-/

namespace MessengerClient

namespace Streaming

/-! ## The parts of a piece -/

/-- A part of a piece of `limit` bytes: full unless the piece ends in it. -/
structure IsPart (limit : Nat) (e : Nat × Bytes) : Prop where
  aligned : kPartSize ∣ e.1
  inside : e.1 < limit
  length : e.2.length = min kPartSize (limit - e.1)

namespace IsPart

variable {limit : Nat} {e : Nat × Bytes}

theorem length_pos (h : IsPart limit e) : 0 < e.2.length := by
  have := h.inside
  have := h.length
  simp only [kPartSize] at *
  omega

theorem length_le (h : IsPart limit e) : e.2.length ≤ kPartSize :=
  h.length ▸ min_le_left ..

theorem end_le (h : IsPart limit e) : e.1 + e.2.length ≤ limit := by
  have := h.inside
  have := h.length
  omega

/-- A part that ends before the piece does is full. -/
theorem length_eq (h : IsPart limit e) (hlt : e.1 + e.2.length < limit) :
    e.2.length = kPartSize := by
  have := h.length
  omega

end IsPart

theorem size_le_of_isPart {limit count : Nat} {parts : PartsMap}
    (h : ∀ e ∈ parts.entries, IsPart limit e) (hlimit : limit ≤ count * kPartSize) :
    parts.size ≤ count := by
  have hnodup : (parts.keys.map (· / kPartSize)).Nodup := by
    refine (parts.nodup_keys).map_on fun a ha b hb hab => ?_
    obtain ⟨v, hv⟩ := FlatMap.mem_keys_iff.mp ha
    obtain ⟨w, hw⟩ := FlatMap.mem_keys_iff.mp hb
    have hva : kPartSize ∣ a := (h _ (FlatMap.mem_entries_iff.mpr hv)).aligned
    have hwb : kPartSize ∣ b := (h _ (FlatMap.mem_entries_iff.mpr hw)).aligned
    rw [← Nat.div_mul_cancel hva, ← Nat.div_mul_cancel hwb, hab]
  have hsub : parts.keys.map (· / kPartSize) ⊆ List.range count := by
    intro i hi
    obtain ⟨k, hk, rfl⟩ := List.mem_map.mp hi
    obtain ⟨v, hv⟩ := FlatMap.mem_keys_iff.mp hk
    have hlt : k < limit := (h _ (FlatMap.mem_entries_iff.mpr hv)).inside
    exact List.mem_range.mpr (Nat.div_lt_of_lt_mul (by rw [Nat.mul_comm]; omega))
  have hle := (hnodup.subperm hsub).length_le
  rwa [List.length_map, FlatMap.keys, List.length_map, List.length_range] at hle

/-! ## Contiguous data -/

/-- Parts that follow each other from `start` on. -/
def Contiguous : Nat → List (Nat × Bytes) → Prop
  | _, [] => True
  | start, e :: es => e.1 = start ∧ Contiguous (start + e.2.length) es

/-- A part with another behind it is full. -/
theorem IsPart.next {limit : Nat} {e d : Nat × Bytes} (he : IsPart limit e) (hd : IsPart limit d)
    (hlt : e.1 < d.1) : e.2.length = kPartSize ∧ e.1 + kPartSize ≤ d.1 := by
  have hgap : e.1 + kPartSize ≤ d.1 := by
    obtain ⟨i, hi⟩ := he.aligned
    obtain ⟨j, hj⟩ := hd.aligned
    simp only [kPartSize] at *
    omega
  have hlen := he.length
  have hin := hd.inside
  exact ⟨by omega, hgap⟩

/-- Parts whose reading passes the start of the last one leave no hole. -/
theorem contiguous_of_findNotLoadedStart {limit : Nat} (hlimit : limit < 2 ^ 32)
    {es : List (Nat × Bytes)} (hparts : ∀ e ∈ es, IsPart limit e)
    (hs : es.Pairwise (fun a b => a.1 < b.1)) {start : Nat} (hle : ∀ e ∈ es, start ≤ e.1)
    {back : Nat × Bytes} (hback : es.getLast? = some back)
    (hfind : back.1 < findNotLoadedStart es start) : Contiguous start es := by
  induction es generalizing start with
  | nil => trivial
  | cons e es ih =>
      have hbackLe := hle back (List.mem_of_getLast? hback)
      obtain ⟨he, hes⟩ := List.forall_mem_cons.mp hparts
      obtain ⟨hhead, htail⟩ := List.pairwise_cons.mp hs
      have heStart := hle e List.mem_cons_self
      have hend := he.end_le
      rw [findNotLoadedStart] at hfind
      split at hfind
      · next hcond =>
        simp only [Bool.and_eq_true, decide_eq_true_eq] at hcond
        have hstart : e.1 = start := by omega
        refine ⟨hstart, ?_⟩
        cases es with
        | nil => trivial
        | cons d es =>
            rw [List.getLast?_cons_cons] at hback
            rw [u32_of_lt (n := e.1 + e.2.length) (by omega), hstart] at hfind
            refine ih hes htail (fun c hc => ?_) hback hfind
            have hnext := he.next (hes c hc) (hhead c hc)
            omega
      · next hcond => omega

theorem lt_of_contiguous {limit : Nat} {es : List (Nat × Bytes)}
    (hparts : ∀ e ∈ es, IsPart limit e) {start : Nat} (h : Contiguous start es) :
    ∀ e ∈ es, e.1 < start + es.length * kPartSize := by
  induction es generalizing start with
  | nil => simp
  | cons d es ih =>
      obtain ⟨hd, hes⟩ := List.forall_mem_cons.mp hparts
      obtain ⟨rfl, htail⟩ := h
      have hK : 0 < kPartSize := by decide
      have hlen := hd.length_le
      rw [List.length_cons, Nat.succ_mul]
      intro e he
      cases List.mem_cons.mp he with
      | inl heq =>
          subst heq
          omega
      | inr hmem =>
          have hlt := ih hes htail e hmem
          omega

/-! ## Pieces -/

/-- The bytes of the file that the map under `number` covers. -/
def pieceLimit (size number : Nat) : Nat :=
  if number = 0 then size else min kInSlice (size - (number - 1) * kInSlice)

theorem slicesCount_spec {size count : Nat} (hsize : size < 2 ^ 32)
    (h : slicesCount size = some count) (hpos : 0 < count) :
    (count - 1) * kInSlice < size ∧ size ≤ count * kInSlice := by
  rw [slicesCount] at h
  split at h
  · simp only [Option.some.injEq, kInSlice, kPartsInSlice, kPartSize] at *
    omega
  · exact absurd h (by simp)

theorem pieceLimit_le_of_pos {size number : Nat} (h : number ≠ 0) :
    pieceLimit size number ≤ kInSlice := by
  rw [pieceLimit, if_neg h]
  exact min_le_left ..

/-- A number that has an entry in the cache. -/
def HasEntry (size number : Nat) : Prop :=
  number = 0 ∨ ∃ count, slicesCount size = some count ∧ number ≤ count

/-- `MaxSliceSize` is the limit of the piece, up to the conversion to `int`. -/
theorem maxSliceSize_spec {size number : Nat} (hsize : size < 2 ^ 32) (h : HasEntry size number) :
    ∃ m, maxSliceSize number size = some m ∧ u32 m = pieceLimit size number ∧
      (pieceLimit size number < 2 ^ 31 → m = pieceLimit size number) := by
  cases Nat.eq_zero_or_pos number with
  | inl h0 =>
      subst h0
      exact ⟨i32 size, rfl, by rw [u32_i32, u32_of_lt hsize]; rfl, fun hlt => i32_of_lt hlt⟩
  | inr hpos =>
      obtain h0 | ⟨count, hcount, hle⟩ := h
      · omega
      obtain ⟨hlow, hhigh⟩ := slicesCount_spec hsize hcount (by omega)
      have hne : number ≠ 0 := by omega
      have hlimit : pieceLimit size number < 2 ^ 31 :=
        lt_of_le_of_lt (pieceLimit_le_of_pos hne) (by decide)
      suffices hm : maxSliceSize number size = some (pieceLimit size number : Int) from
        ⟨_, hm, u32_of_lt (by omega), fun _ => rfl⟩
      simp only [maxSliceSize, if_neg hne, hcount, Option.bind_eq_bind, Option.bind_some]
      simp only [pieceLimit, if_neg hne]
      split
      · next heq =>
        subst heq
        have hcast : (size : Int) - ((number : Int) - 1) * kInSlice =
            ((size - (number - 1) * kInSlice : Nat) : Int) := by
          simp only [kInSlice, kPartsInSlice, kPartSize] at *
          omega
        have hmin : size - (number - 1) * kInSlice ≤ kInSlice := by
          simp only [kInSlice, kPartsInSlice, kPartSize] at *
          omega
        rw [hcast, u32_of_lt (by omega), i32_of_lt (lt_of_le_of_lt hmin (by decide)),
          Nat.min_eq_right hmin]
      · next hlt =>
        have hmin : kInSlice ≤ size - (number - 1) * kInSlice := by
          simp only [kInSlice, kPartsInSlice, kPartSize] at *
          omega
        rw [Nat.min_eq_left hmin]

/-! ## Honest parts -/

/-- The part of the file `F` that starts at `offset`. -/
def filePart (F : Bytes) (offset : Nat) : Bytes := (F.drop offset).take kPartSize

/-- `limit` bytes of `F` from `base` on, up to the end of `F` or of a slice. -/
structure Piece (F : Bytes) (base limit : Nat) : Prop where
  le : base + limit ≤ F.length
  ends : base + limit = F.length ∨ kPartSize ∣ limit

/-- A part of a piece holds the bytes of the file. -/
structure Honest (F : Bytes) (base limit : Nat) (e : Nat × Bytes) : Prop where
  aligned : kPartSize ∣ e.1
  inside : e.1 < limit
  bytes : e.2 = filePart F (base + e.1)

def HonestParts (F : Bytes) (base limit : Nat) (parts : PartsMap) : Prop :=
  ∀ e ∈ parts.entries, Honest F base limit e

theorem length_filePart (F : Bytes) (offset : Nat) :
    (filePart F offset).length = min kPartSize (F.length - offset) := by
  rw [filePart, List.length_take, List.length_drop]

section

variable {F : Bytes} {base limit : Nat} {e : Nat × Bytes}

theorem Honest.isPart (hp : Piece F base limit) (h : Honest F base limit e) : IsPart limit e where
  aligned := h.aligned
  inside := h.inside
  length := by
    have hle := hp.le
    have hin := h.inside
    rw [h.bytes, length_filePart]
    cases hp.ends with
    | inl heq => omega
    | inr hdvd =>
        obtain ⟨i, hi⟩ := hdvd
        obtain ⟨j, hj⟩ := h.aligned
        simp only [kPartSize] at *
        omega

/-- The bytes of an honest part are bytes of the file, from any point on. -/
theorem Honest.copy (h : Honest F base limit e) {filled count : Nat} (hle : e.1 ≤ filled)
    (hcount : filled + count ≤ e.1 + kPartSize) :
    (e.2.drop (filled - e.1)).take count = (F.drop (base + filled)).take count := by
  have hmin : min count (kPartSize - (filled - e.1)) = count := by omega
  have hadd : base + e.1 + (filled - e.1) = base + filled := by omega
  rw [h.bytes, filePart, List.drop_take, List.drop_drop, hadd, List.take_take, hmin]

end

theorem piece_header (F : Bytes) : Piece F 0 F.length := ⟨by omega, .inl (Nat.zero_add _)⟩

theorem piece_slice (F : Bytes) {index : Nat} (h : index * kInSlice ≤ F.length) :
    Piece F (index * kInSlice) (pieceLimit F.length (index + 1)) := by
  have hlimit : pieceLimit F.length (index + 1) = min kInSlice (F.length - index * kInSlice) := by
    rw [pieceLimit, if_neg (Nat.succ_ne_zero _), Nat.add_sub_cancel]
  rw [hlimit]
  refine ⟨by omega, ?_⟩
  cases Nat.le_total kInSlice (F.length - index * kInSlice) with
  | inl hle =>
      rw [Nat.min_eq_left hle]
      exact .inr ⟨kPartsInSlice, Nat.mul_comm ..⟩
  | inr hle =>
      rw [Nat.min_eq_right hle]
      exact .inl (by omega)

end Streaming

end MessengerClient
