import MessengerClient.Streaming.Parts
import Mathlib.Data.List.TakeWhile

/-!
# MessengerClient.Streaming.Filling

Reading from one map of parts.  `prepareFill` is ready only when the parts from the
start of the reading to its end leave no hole, so `copyLoaded` then copies the bytes
of the file; the offsets it asks the loader for are offsets of parts that the map
does not hold.
-/

namespace MessengerClient

namespace Streaming

variable {F : Bytes} {base limit : Nat}

/-! ## Sorted entries -/

/-- Behind the first entry that a bound from above refuses, it refuses every entry. -/
theorem eq_false_of_mem_dropWhile {es : List (Nat × Bytes)}
    (hs : es.Pairwise (fun a b => a.1 < b.1)) {p : Nat × Bytes → Bool}
    (hp : ∀ a b, a.1 < b.1 → p b = true → p a = true) {e : Nat × Bytes}
    (he : e ∈ es.dropWhile p) : p e = false := by
  induction es with
  | nil => simp at he
  | cons a es ih =>
      obtain ⟨hhead, htail⟩ := List.pairwise_cons.mp hs
      cases hpa : p a with
      | true =>
          rw [List.dropWhile_cons_of_pos hpa] at he
          exact ih htail he
      | false =>
          rw [List.dropWhile_cons_of_neg (by simp [hpa])] at he
          cases List.mem_cons.mp he with
          | inl heq => exact heq ▸ hpa
          | inr hmem =>
              by_contra hpe
              rw [hp a e (hhead e hmem) (Bool.of_not_eq_false hpe)] at hpa
              exact absurd hpa (by decide)

theorem mem_dropWhile_or {es : List (Nat × Bytes)} (p : Nat × Bytes → Bool) {e : Nat × Bytes}
    (he : e ∈ es) : e ∈ es.dropWhile p ∨ p e = true := by
  rw [← List.takeWhile_append_dropWhile (p := p) (l := es)] at he
  cases List.mem_append.mp he with
  | inl h => exact .inr (List.mem_takeWhile_imp h)
  | inr h => exact .inl h

/-! ## Copying -/

/-- Contiguous honest parts are copied without a gap. -/
theorem copyParts_contiguous (hp : Piece F base limit) (hlimit : limit < 2 ^ 32) {till : Nat}
    {es : List (Nat × Bytes)} (hes : ∀ e ∈ es, Honest F base limit e) {e : Nat × Bytes}
    (he : Honest F base limit e) (hcont : Contiguous e.1 (e :: es)) (htill : ∀ d ∈ es, d.1 < till)
    {filled : Nat} (hle : e.1 ≤ filled) (hlt : filled < till)
    (hcover : filled < e.1 + e.2.length) (hfind : till ≤ findNotLoadedStart (e :: es) e.1) :
    copyParts till (e :: es) filled = some ((F.drop (base + filled)).take (till - filled)) := by
  induction es generalizing e filled with
  | nil =>
      have hpart := he.isPart hp
      have hend := hpart.end_le
      have hu : u32 (e.1 + e.2.length : Nat) = e.1 + e.2.length := u32_of_lt
        (by omega)
      have hreach : till ≤ e.1 + e.2.length := by
        rwa [findNotLoadedStart, if_pos (by simp), hu, findNotLoadedStart] at hfind
      have hmin : min (e.1 + e.2.length) till = till := Nat.min_eq_right hreach
      have hlen := hpart.length_le
      simp only [copyParts, hu, hmin, hle, hlt, decide_true, Bool.and_self, if_true]
      rw [he.copy hle (by omega)]
      simp
  | cons d es ih =>
      obtain ⟨hd, hes⟩ := List.forall_mem_cons.mp hes
      obtain ⟨hdt, htill⟩ := List.forall_mem_cons.mp htill
      have hpart := he.isPart hp
      have hend := hpart.end_le
      have hu : u32 (e.1 + e.2.length : Nat) = e.1 + e.2.length := u32_of_lt
        (by omega)
      have hnext : d.1 = e.1 + e.2.length := hcont.2.1
      have hmin : min (e.1 + e.2.length) till = e.1 + e.2.length := Nat.min_eq_left (by omega)
      have hlen := hpart.length_le
      have hdpos := (hd.isPart hp).length_pos
      have hfind' : till ≤ findNotLoadedStart (d :: es) d.1 := by
        rw [findNotLoadedStart, if_pos (by simp), hu, ← hnext] at hfind
        exact hfind
      have hrest := ih hes hd (hnext ▸ hcont.2) htill (Nat.le_refl d.1) hdt (by omega) hfind'
      have hcut : till - filled = (e.1 + e.2.length - filled) + (till - d.1) := by omega
      have hdrop : base + d.1 = base + filled + (e.1 + e.2.length - filled) := by omega
      rw [copyParts]
      simp only [hu, hmin, hle, hcover, decide_true, Bool.and_self, if_true]
      rw [← hnext, hrest, Option.bind_eq_bind, Option.bind_some, hnext,
        he.copy hle (by omega), hcut, List.take_add, List.drop_drop, ← hdrop, hnext]
      rfl

/-! ## Preparing a reading -/

theorem le_findNotLoadedStart (hlimit : limit < 2 ^ 32) {es : List (Nat × Bytes)}
    (hes : ∀ e ∈ es, IsPart limit e) (start : Nat) : start ≤ findNotLoadedStart es start := by
  induction es generalizing start with
  | nil => exact Nat.le_refl _
  | cons e es ih =>
      obtain ⟨he, hes⟩ := List.forall_mem_cons.mp hes
      have hend := he.end_le
      rw [findNotLoadedStart]
      split
      · next hcond =>
        simp only [Bool.and_eq_true, decide_eq_true_eq] at hcond
        have hrest := ih hes (u32 (e.1 + e.2.length : Nat))
        rw [u32_of_lt (n := e.1 + e.2.length) (by omega)] at hrest ⊢
        omega
      · exact Nat.le_refl _

/-- Inside a piece the parts can only end where a part starts. -/
theorem dvd_findNotLoadedStart (hlimit : limit < 2 ^ 32) {es : List (Nat × Bytes)}
    (hes : ∀ e ∈ es, IsPart limit e) {start : Nat} (hstart : kPartSize ∣ start)
    (hlt : findNotLoadedStart es start < limit) : kPartSize ∣ findNotLoadedStart es start := by
  induction es generalizing start with
  | nil => exact hstart
  | cons e es ih =>
      obtain ⟨he, hes⟩ := List.forall_mem_cons.mp hes
      have hend := he.end_le
      rw [findNotLoadedStart] at hlt ⊢
      split at hlt
      · next hcond =>
        rw [if_pos hcond]
        have hle := le_findNotLoadedStart hlimit hes (u32 (e.1 + e.2.length : Nat))
        rw [u32_of_lt (n := e.1 + e.2.length) (by omega)] at hlt hle ⊢
        refine ih hes ?_ hlt
        rw [he.length_eq (by omega)]
        exact Nat.dvd_add he.aligned (Nat.dvd_refl _)
      · next hcond =>
        rw [if_neg hcond]
        exact hstart

namespace Slice

variable {slice : Slice} {fromOffset till : Nat}

/-- The parts that `prepareFill` looks at: the last one that starts before the
reading, and those that start inside of it. -/
structure Looked (slice : Slice) (fromOffset till : Nat) (start : Nat × Bytes)
    (rest : List (Nat × Bytes)) : Prop where
  mem : ∀ e ∈ start :: rest, e ∈ slice.parts.entries
  sorted : (start :: rest).Pairwise (fun a b => a.1 < b.1)
  le : start.1 ≤ fromOffset
  inside : ∀ e ∈ rest, fromOffset < e.1 ∧ e.1 < till

theorem looked_of_getLast {start : Nat × Bytes}
    (h : (slice.parts.entries.takeWhile (·.1 ≤ fromOffset)).getLast? = some start) :
    Looked slice fromOffset till start
      ((slice.parts.entries.dropWhile (·.1 ≤ fromOffset)).takeWhile (·.1 < till)) := by
  have hmem := List.mem_of_getLast? h
  have hle : start.1 ≤ fromOffset := by simpa using List.mem_takeWhile_imp hmem
  have hrest : ∀ e ∈ (slice.parts.entries.dropWhile (·.1 ≤ fromOffset)).takeWhile (·.1 < till),
      e ∈ slice.parts.entries ∧ fromOffset < e.1 ∧ e.1 < till := by
    intro e he
    have hdrop := (List.takeWhile_sublist _).subset he
    have hlow := eq_false_of_mem_dropWhile slice.parts.sorted
      (fun a b hab hb => decide_eq_true (le_trans (le_of_lt hab) (of_decide_eq_true hb))) hdrop
    have hhigh := List.mem_takeWhile_imp he
    exact ⟨(List.dropWhile_sublist _).subset hdrop, by simpa using hlow, by simpa using hhigh⟩
  refine ⟨List.forall_mem_cons.mpr ⟨(List.takeWhile_sublist _).subset hmem,
    fun e he => (hrest e he).1⟩, List.pairwise_cons.mpr ⟨fun e he => ?_, ?_⟩, hle,
    fun e he => (hrest e he).2⟩
  · exact lt_of_le_of_lt hle (hrest e he).2.1
  · exact slice.parts.sorted.sublist
      ((List.takeWhile_sublist _).trans (List.dropWhile_sublist _))

/-- A reading that is covered starts in the first part it looks at. -/
theorem Looked.start_eq (hlimit : limit < 2 ^ 32) {start : Nat × Bytes}
    {rest : List (Nat × Bytes)} (h : Looked slice fromOffset till start rest)
    (hparts : ∀ e ∈ slice.parts.entries, IsPart limit e) (hlt : fromOffset < till)
    (hfind : till ≤ findNotLoadedStart (start :: rest) (fromOffset / kPartSize * kPartSize)) :
    start.1 = fromOffset / kPartSize * kPartSize := by
  have hstart := hparts start (h.mem start List.mem_cons_self)
  have hend := hstart.end_le
  have hlen := hstart.length_le
  have hle := h.le
  have hfloor : fromOffset / kPartSize * kPartSize ≤ fromOffset := Nat.div_mul_le_self ..
  have haligned := hstart.aligned
  by_contra hne
  have hbelow : start.1 + kPartSize ≤ fromOffset / kPartSize * kPartSize := by
    obtain ⟨i, hi⟩ := haligned
    simp only [kPartSize] at *
    omega
  -- Even a full part only reaches the start of the part that is read, and the next
  -- one starts behind it.
  have hstop : findNotLoadedStart rest (fromOffset / kPartSize * kPartSize) =
      fromOffset / kPartSize * kPartSize := by
    cases hrest : rest with
    | nil => rfl
    | cons d ds =>
        have hd := (h.inside d (hrest ▸ List.mem_cons_self)).1
        rw [findNotLoadedStart, if_neg]
        simp only [Bool.and_eq_true, decide_eq_true_eq]
        omega
  rw [findNotLoadedStart] at hfind
  split at hfind
  · next hcond =>
    simp only [Bool.and_eq_true, decide_eq_true_eq] at hcond
    have hreach : start.1 + start.2.length = fromOffset / kPartSize * kPartSize := by omega
    rw [hreach, u32_of_lt (n := fromOffset / kPartSize * kPartSize) (by omega), hstop] at hfind
    omega
  · omega

theorem prepareFill_ready (hready : (slice.prepareFill fromOffset till).ready = true) :
    ∃ start rest, Looked slice fromOffset till start rest ∧
      (slice.prepareFill fromOffset till).range = start :: rest ∧
      till ≤ findNotLoadedStart (start :: rest) (fromOffset / kPartSize * kPartSize) := by
  unfold prepareFill at hready ⊢
  dsimp only at hready ⊢
  split at hready
  · exact absurd hready Bool.false_ne_true
  · next start hstart =>
    split at hready
    · exact absurd hready Bool.false_ne_true
    · next hhave =>
      rw [if_neg hhave]
      exact ⟨start, _, looked_of_getLast hstart, rfl, not_lt.mp hhave⟩

/-- **A ready reading copies the bytes of the file.** -/
theorem copyLoaded_prepareFill (hp : Piece F base limit) (hlimit : limit < 2 ^ 32)
    (hparts : HonestParts F base limit slice.parts) (hlt : fromOffset < till) (hle : till ≤ limit)
    (hready : (slice.prepareFill fromOffset till).ready = true) (buffer : Bytes) :
    copyLoaded buffer (slice.prepareFill fromOffset till).range fromOffset till =
      some ((F.drop (base + fromOffset)).take (till - fromOffset)
        ++ buffer.drop (till - fromOffset)) := by
  obtain ⟨start, rest, hlooked, hrange, hfind⟩ := prepareFill_ready hready
  have hisPart : ∀ e ∈ slice.parts.entries, IsPart limit e := fun e he => (hparts e he).isPart hp
  have hstart := hlooked.start_eq hlimit hisPart hlt hfind
  have hfloor : fromOffset / kPartSize * kPartSize ≤ fromOffset := Nat.div_mul_le_self ..
  have hnonempty : (start :: rest) ≠ [] := List.cons_ne_nil start rest
  obtain ⟨back, hback⟩ := Option.isSome_iff_exists.mp (List.getLast?_isSome.mpr hnonempty)
  have hinside : ∀ e ∈ start :: rest, start.1 ≤ e.1 ∧ e.1 < till := by
    refine List.forall_mem_cons.mpr ⟨⟨le_refl _, by omega⟩, fun e he => ?_⟩
    have := hlooked.inside e he
    omega
  have hcont : Contiguous start.1 (start :: rest) :=
    contiguous_of_findNotLoadedStart hlimit (fun e he => hisPart e (hlooked.mem e he))
      hlooked.sorted (fun e he => (hinside e he).1) hback
      (hstart ▸ lt_of_lt_of_le (hinside back (List.mem_of_getLast? hback)).2 hfind)
  have hstartPart := hisPart start (hlooked.mem start List.mem_cons_self)
  have hcover : fromOffset < start.1 + start.2.length := by
    cases hrest : rest with
    | nil =>
        have hend := hstartPart.end_le
        rw [hrest, ← hstart, findNotLoadedStart, if_pos (by simp), findNotLoadedStart,
          u32_of_lt (n := start.1 + start.2.length) (by omega)] at hfind
        omega
    | cons d ds =>
        have hd := (hlooked.inside d (hrest ▸ List.mem_cons_self)).1
        rw [hrest] at hcont
        rwa [hcont.2.1] at hd
  have hhonest : ∀ e ∈ start :: rest, Honest F base limit e := fun e he =>
    hparts e (hlooked.mem e he)
  have hcopy := copyParts_contiguous hp hlimit
    (fun e he => hhonest e (List.mem_cons_of_mem start he)) (hhonest start List.mem_cons_self)
    hcont (fun e he => (hlooked.inside e he).2) (by omega) hlt hcover (hstart ▸ hfind)
  have hple := hp.le
  have hlen : ((F.drop (base + fromOffset)).take (till - fromOffset)).length =
      till - fromOffset := by
    rw [List.length_take, List.length_drop]
    omega
  rw [hrange, copyLoaded, hcopy, Option.bind_eq_bind, Option.bind_some, hlen]
  rfl

/-! ## What the loader is asked for -/

/-- An offset where a part may be and is not. -/
def Missing (slice : Slice) (offset : Nat) : Prop :=
  kPartSize ∣ offset ∧ slice.parts.contains offset = false

theorem missing_collectOffsets (rounds : Nat) {check : List (Nat × Bytes)} {offset : Nat}
    {result : List Nat} (hsub : check.Sublist slice.parts.entries)
    (hcheck : ∀ e ∈ slice.parts.entries, e ∈ check ∨ e.1 < offset) (hdvd : kPartSize ∣ offset)
    (hbound : offset + rounds * kPartSize < 2 ^ 32) (hresult : ∀ o ∈ result, slice.Missing o) :
    ∀ o ∈ collectOffsets till rounds check offset result, slice.Missing o := by
  induction rounds generalizing check offset result with
  | zero => exact hresult
  | succ rounds ih =>
      rw [Nat.succ_mul] at hbound
      have hK : 0 < kPartSize := by decide
      have hnext : u32 (offset + kPartSize : Nat) = offset + kPartSize := u32_of_lt (by omega)
      have hsub' : (check.dropWhile (·.1 < offset)).Sublist slice.parts.entries :=
        (List.dropWhile_sublist _).trans hsub
      have hcheck' : ∀ e ∈ slice.parts.entries,
          e ∈ check.dropWhile (·.1 < offset) ∨ e.1 < offset := by
        intro e he
        cases hcheck e he with
        | inl h => exact (mem_dropWhile_or _ h).imp_right of_decide_eq_true
        | inr h => exact .inr h
      have hlater : ∀ e ∈ slice.parts.entries,
          e ∈ check.dropWhile (·.1 < offset) ∨ e.1 < offset + kPartSize := fun e he =>
        (hcheck' e he).imp_right fun h => by omega
      have hdvd' : kPartSize ∣ offset + kPartSize := Nat.dvd_add hdvd (Nat.dvd_refl _)
      rw [collectOffsets]
      split
      · exact hresult
      · simp only [hnext]
        split
        · exact ih hsub' hlater hdvd' (by omega) hresult
        · next hhead =>
          split
          · refine ih hsub' hlater hdvd' (by omega) fun o ho => ?_
            cases List.mem_append.mp ho with
            | inl h => exact hresult o h
            | inr h =>
                obtain rfl := List.mem_singleton.mp h
                refine ⟨hdvd, FlatMap.contains_eq_false_iff.mpr
                  (FlatMap.find?_eq_none_iff.mpr fun e he heq => hhead ?_)⟩
                -- The entry itself would be the next one to check.
                have hmem := (hcheck' e he).resolve_right (by omega)
                cases hlist : check.dropWhile (·.1 < o) with
                | nil => simp [hlist] at hmem
                | cons d ds =>
                    rw [hlist] at hmem hsub'
                    have hsorted := slice.parts.sorted.sublist hsub'
                    have hd := eq_false_of_mem_dropWhile (slice.parts.sorted.sublist hsub)
                      (p := fun e => e.1 < o) (fun a b hab hb => decide_eq_true
                        (lt_trans hab (of_decide_eq_true hb))) (hlist ▸ List.mem_cons_self)
                    have hde : d.1 ≤ e.1 := by
                      cases List.mem_cons.mp hmem with
                      | inl h => exact h ▸ le_refl _
                      | inr h => exact le_of_lt ((List.pairwise_cons.mp hsorted).1 e h)
                    have hod : o ≤ d.1 := not_lt.mp (of_decide_eq_false hd)
                    simp only [List.head?_cons, Option.any_some, decide_eq_true_eq]
                    omega
          · exact hresult

theorem missing_offsetsFromLoader (hlimit : limit ≤ kMaxOnlyInHeader)
    (hparts : ∀ e ∈ slice.parts.entries, IsPart limit e) (hdvd : kPartSize ∣ fromOffset)
    (hle : fromOffset ≤ limit + kPartSize) :
    ∀ o ∈ slice.offsetsFromLoader fromOffset till, slice.Missing o := by
  have hsize : slice.parts.size ≤ 80 := size_le_of_isPart hparts hlimit
  refine missing_collectOffsets _ (List.Sublist.refl _) (fun e he => .inl he) hdvd ?_ (by simp)
  have hmul : (slice.parts.size + kLoadFromRemoteMax + 1) * kPartSize ≤ 89 * kPartSize :=
    Nat.mul_le_mul_right _ (by simp only [kLoadFromRemoteMax]; omega)
  simp only [kMaxOnlyInHeader, kPartSize] at *
  omega

/-- **A reading asks the loader only for parts that are missing.** -/
theorem missing_prepareFill (hp : Piece F base limit) (hlimit : limit ≤ kMaxOnlyInHeader)
    (hparts : HonestParts F base limit slice.parts) (hlt : fromOffset < till)
    (hle : till ≤ limit) :
    ∀ o ∈ (slice.prepareFill fromOffset till).offsetsFromLoader, slice.Missing o := by
  have hisPart : ∀ e ∈ slice.parts.entries, IsPart limit e := fun e he => (hparts e he).isPart hp
  have hfloor : fromOffset / kPartSize * kPartSize ≤ fromOffset := Nat.div_mul_le_self ..
  have hfloorDvd : kPartSize ∣ fromOffset / kPartSize * kPartSize := Nat.dvd_mul_left ..
  unfold prepareFill
  dsimp only
  split
  · exact missing_offsetsFromLoader hlimit hisPart hfloorDvd (by omega)
  · next start hstart =>
    have hlooked : Looked slice fromOffset till start _ := looked_of_getLast hstart
    split
    · next hhave =>
      have hdvd := dvd_findNotLoadedStart (lt_of_le_of_lt hlimit (by decide))
        (fun e he => hisPart e (hlooked.mem e he)) hfloorDvd (lt_of_lt_of_le hhave hle)
      exact missing_offsetsFromLoader hlimit hisPart hdvd (by omega)
    · refine missing_offsetsFromLoader hlimit hisPart (Nat.dvd_mul_left ..) ?_
      have hceil : (till + kPartSize - 1) / kPartSize * kPartSize ≤ till + kPartSize - 1 :=
        Nat.div_mul_le_self ..
      omega

end Slice

end Streaming

end MessengerClient
