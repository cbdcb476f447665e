import MessengerClient.Statistic.SegmentTree

/-!
# MessengerClient.Statistic.SegmentTree.Scan

The queries of the heap against the loop over the array.

The node at `v` has its halves at `2 * v` and `2 * v + 1`; what is below a node is read off the
binary digits of the index.  A query puts together what stands for the parts of the range in
the nodes that it stops at, and each node that it leaves out adds the start of the loop.
-/

namespace MessengerClient

namespace Statistic

namespace SegmentTree

/-! ## Ranges of the array -/

/-- The values at `size` indices from `lo` on. -/
def values (array : List ChartValue) (lo size : Nat) : List ChartValue :=
  (List.range' lo size).filterMap (array[·]?)

/-- Those of them in the range of a query. -/
def part (array : List ChartValue) (from_ to_ : Int) (lo size : Nat) : List ChartValue :=
  ((List.range' lo size).filter fun i : Nat => from_ ≤ i ∧ i ≤ to_).filterMap (array[·]?)

variable {array : List ChartValue} {from_ to_ : Int} {v lo size k : Nat} {heap heap' : List Node}

theorem values_eq (array : List ChartValue) (lo size : Nat) :
    values array lo size = (array.drop lo).take size := by
  induction size with
  | zero => rfl
  | succ size ih =>
      rw [values, List.range'_1_concat, List.filterMap_append, ← values, ih, List.take_add_one,
        List.getElem?_drop]
      cases h : array[lo + size]? with
      | none => simp [h]
      | some value => simp [h]

theorem values_add (a b : Nat) :
    values array lo (a + b) = values array lo a ++ values array (lo + a) b := by
  rw [values, ← List.range'_append_1, List.filterMap_append]
  rfl

theorem part_add (a b : Nat) :
    part array from_ to_ lo (a + b) =
      part array from_ to_ lo a ++ part array from_ to_ (lo + a) b := by
  rw [part, ← List.range'_append_1, List.filter_append, List.filterMap_append]
  rfl

theorem part_of_contained (hfrom : from_ ≤ lo) (hto : lo + size - 1 ≤ to_) :
    part array from_ to_ lo size = values array lo size := by
  rw [part, List.filter_eq_self.mpr fun i hi => ?_, values]
  rw [List.mem_range'_1] at hi
  simp only [decide_eq_true_eq]
  omega

theorem part_of_disjoint (h : ∀ i : Nat, lo ≤ i → i < lo + size → ¬(from_ ≤ i ∧ i ≤ to_)) :
    part array from_ to_ lo size = [] := by
  rw [part, List.filter_eq_nil_iff.mpr fun i hi => ?_, List.filterMap_nil]
  rw [List.mem_range'_1] at hi
  simpa only [decide_eq_true_eq] using h i hi.1 hi.2

/-- The loop goes over the part of the whole array. -/
theorem scan_eq (q : Query) (hle : from_ ≤ to_) :
    scan q array from_ to_ =
      (part array from_ to_ 0 array.length).foldl q.combine q.outside := by
  rw [scan, ← values_eq]
  congr 1
  by_cases hempty : to_ < 0 ∨ (array.length : Int) ≤ from_
  · rw [part_of_disjoint fun i _ _ => by omega, show (min to_ (array.length - 1) + 1 - max from_ 0).toNat = 0 by
      omega]
    rfl
  · obtain ⟨a, ha⟩ : ∃ a : Nat, (a : Int) = max from_ 0 := ⟨(max from_ 0).toNat, by omega⟩
    obtain ⟨b, hb⟩ : ∃ b : Nat, (b : Int) = min to_ (array.length - 1) + 1 - max from_ 0 :=
      ⟨_, Int.toNat_of_nonneg (by omega)⟩
    obtain ⟨c, hc⟩ : ∃ c : Nat, array.length = a + (b + c) := ⟨array.length - a - b, by omega⟩
    rw [← ha] at hb ⊢
    rw [← hb, Int.toNat_natCast, Int.toNat_natCast]
    have hbefore : part array from_ to_ 0 a = [] := part_of_disjoint fun i _ _ => by omega
    have hin : part array from_ to_ a b = values array a b := part_of_contained (by omega) (by omega)
    have hafter : part array from_ to_ (a + b) c = [] := part_of_disjoint fun i _ _ => by omega
    conv_rhs => rw [hc]
    rw [part_add, Nat.zero_add, part_add, hbefore, hin, hafter, List.nil_append, List.append_nil]

/-! ## What is built -/

/-- A node of the values from `lo` on. -/
structure Covers (array : List ChartValue) (n : Node) (lo size : Nat) : Prop where
  from_eq : n.from_ = lo
  to_eq : n.to_ = lo + size - 1
  not_pending : n.pendingVal.available = false
  max : Summary max (values array lo size) n.max
  min : Summary min (values array lo size) n.min

/-- The nodes of a range and of its halves. -/
inductive Built (array : List ChartValue) (heap : List Node) : Nat → Nat → Nat → Prop
  | leaf {v lo : Nat} {n : Node} (hn : heap[v]? = some n) (h : Covers array n lo 1) :
      Built array heap v lo 1
  | node {v lo size : Nat} {n : Node} (hn : heap[v]? = some n) (h : Covers array n lo size)
      (hsize : 2 ≤ size) (left : Built array heap (2 * v) lo (size / 2))
      (right : Built array heap (2 * v + 1) (lo + size / 2) (size - size / 2)) :
      Built array heap v lo size

/-- The node `k` is `v` or below it. -/
def Under (v k : Nat) : Prop := ∃ j, k / 2 ^ j = v

theorem under_self (v : Nat) : Under v v := ⟨0, by simp⟩

theorem Under.half (h : Under v k) : Under (v / 2) k := by
  obtain ⟨j, rfl⟩ := h
  exact ⟨j + 1, by rw [pow_succ, Nat.div_div_eq_div_mul]⟩

theorem Under.le (h : Under v k) : v ≤ k := by
  obtain ⟨j, rfl⟩ := h
  exact Nat.div_le_self k _

/-- No node is below both halves. -/
theorem not_under_halves (hv : 1 ≤ v) (hleft : Under (2 * v) k) : ¬Under (2 * v + 1) k := by
  rintro ⟨j, hj⟩
  obtain ⟨i, hi⟩ := hleft
  rcases lt_trichotomy i j with hlt | rfl | hlt
  · have hdiv : 2 * v / 2 ^ (j - i) = 2 * v + 1 := by
      rw [← hi, Nat.div_div_eq_div_mul, ← pow_add, Nat.add_sub_cancel' hlt.le, hj, hi]
    have hle := Nat.div_le_self (2 * v) (2 ^ (j - i))
    omega
  · omega
  · have hdiv : (2 * v + 1) / 2 ^ (i - j) = 2 * v := by
      rw [← hj, Nat.div_div_eq_div_mul, ← pow_add, Nat.add_sub_cancel' hlt.le, hi]
    have hle : (2 * v + 1) / 2 ^ (i - j) ≤ (2 * v + 1) / 2 :=
      Nat.div_le_div_left (Nat.le_self_pow (by omega) 2) (by omega)
    omega

/-- Only the nodes from `v` down matter. -/
theorem Built.congr (h : Built array heap v lo size)
    (hsame : ∀ k, Under v k → heap'[k]? = heap[k]?) : Built array heap' v lo size := by
  induction h with
  | leaf hn h => exact .leaf ((hsame _ (under_self _)).trans hn) h
  | @node v lo size n hn h hsize _ _ ihleft ihright =>
      refine .node ((hsame _ (under_self _)).trans hn) h hsize (ihleft fun k hk => ?_)
        (ihright fun k hk => ?_)
      · exact hsame k (by simpa using hk.half)
      · have hhalf := hk.half
        rw [show (2 * v + 1) / 2 = v by omega] at hhalf
        exact hsame k hhalf

theorem Built.get (h : Built array heap v lo size) :
    ∃ n, heap[v]? = some n ∧ Covers array n lo size := by
  cases h with
  | leaf hn h => exact ⟨_, hn, h⟩
  | node hn h => exact ⟨_, hn, h⟩

theorem build_leaf (hroom : v < heap.length) (harray : lo < array.length) :
    ∃ heap', build array v lo 1 heap = some heap' ∧ heap'.length = heap.length ∧
      Built array heap' v lo 1 ∧ ∀ k, ¬Under v k → heap'[k]? = heap[k]? := by
  have hvalue : array[lo]? = some array[lo] := List.getElem?_eq_getElem harray
  have hvalues : values array lo 1 = [array[lo]] := by simp [values, hvalue]
  rw [build, if_pos hroom, if_pos rfl, hvalue]
  refine ⟨_, rfl, by simp, .leaf (List.getElem?_set_self hroom) ?_, fun k hk => ?_⟩
  · exact ⟨rfl, by simp, rfl, hvalues ▸ Summary.singleton _, hvalues ▸ Summary.singleton _⟩
  · refine List.getElem?_set_ne ?_
    rintro rfl
    exact hk (under_self v)

/-- **Building** stays in a heap that has room for that many levels below the node, and
writes the nodes from there down. -/
theorem build_spec (d v lo size : Nat) (heap : List Node) (hv : 1 ≤ v) (hpos : 1 ≤ size) (hsize : size ≤ 2 ^ d)
    (hheap : (v + 1) * 2 ^ d ≤ heap.length) (harray : lo + size ≤ array.length) :
    ∃ heap', build array v lo size heap = some heap' ∧ heap'.length = heap.length ∧
      Built array heap' v lo size ∧ ∀ k, ¬Under v k → heap'[k]? = heap[k]? := by
  induction d generalizing v lo size heap with
  | zero =>
      obtain rfl : size = 1 := by omega
      exact build_leaf (by omega) harray
  | succ d ih =>
      rw [pow_succ] at hsize hheap
      by_cases hone : size = 1
      · subst hone
        exact build_leaf (by nlinarith [Nat.two_pow_pos d]) harray
      · obtain ⟨heap₁, hleft, hlength₁, hbuilt₁, hframe₁⟩ := ih (2 * v) lo (size / 2) heap
          (by omega) (by omega) (by omega) (by nlinarith [Nat.two_pow_pos d]) (by omega)
        obtain ⟨heap₂, hright, hlength₂, hbuilt₂, hframe₂⟩ := ih (2 * v + 1) (lo + size / 2)
          (size - size / 2) heap₁ (by omega) (by omega) (by omega)
          (by nlinarith [Nat.two_pow_pos d]) (by omega)
        -- the right half does not write below the left one, and the node is above both
        have hbuilt₁' : Built array heap₂ (2 * v) lo (size / 2) :=
          hbuilt₁.congr fun k hk => hframe₂ k (not_under_halves hv hk)
        have habove (w k : Nat) (hw : v < w) (hk : Under w k) (n : Node) :
            (heap₂.set v n)[k]? = heap₂[k]? :=
          List.getElem?_set_ne (hw.trans_le hk.le).ne
        obtain ⟨nl, hnl, hleftn⟩ := hbuilt₁'.get
        obtain ⟨nr, hnr, hrightn⟩ := hbuilt₂.get
        have hroom : v < heap.length := by nlinarith [Nat.two_pow_pos d]
        rw [build, if_pos hroom, if_neg hone, if_pos (by omega)]
        simp only [hleft, hright, hnl, hnr, Option.bind_eq_bind, Option.bind_some]
        refine ⟨_, rfl, by rw [List.length_set, hlength₂, hlength₁], ?_, fun k hk => ?_⟩
        · refine .node (List.getElem?_set_self (by omega)) ?_ (by omega)
            (hbuilt₁'.congr fun k hk => habove _ k (by omega) hk _)
            (hbuilt₂.congr fun k hk => habove _ k (by omega) hk _)
          have hvalues := @values_add array lo (size / 2) (size - size / 2)
          rw [Nat.add_sub_cancel' (Nat.div_le_self size 2)] at hvalues
          refine ⟨rfl, rfl, rfl, ?_, ?_⟩
          · rw [hvalues]
            exact hleftn.max.append hrightn.max
          · rw [hvalues]
            exact hleftn.min.append hrightn.min
        · have hne : v ≠ k := by
            rintro rfl
            exact hk (under_self v)
          rw [List.getElem?_set_ne hne, hframe₂ k, hframe₁ k]
          · exact fun hunder => hk (by simpa using hunder.half)
          · intro hunder
            have hhalf := hunder.half
            rw [show (2 * v + 1) / 2 = v by omega] at hhalf
            exact hk hhalf

/-! ## What is asked -/

variable {t : SegmentTree} {q : Query}

/-- An answer for a node: up to the start of the loop, which is in it unless the node was
answered for as a whole, it stands for the values of the range. -/
structure Answers (q : Query) (array : List ChartValue) (from_ to_ : Int) (lo size : Nat)
    (r : ChartValue) : Prop where
  part_eq : (part array from_ to_ lo size).foldl q.combine q.outside = q.combine q.outside r
  start : ¬(from_ ≤ lo ∧ lo + size - 1 ≤ to_) → q.combine q.outside r = r

theorem contains_iff {n : Node} (h : Covers array n lo size) :
    contains from_ to_ n.from_ n.to_ = true ↔ from_ ≤ lo ∧ lo + size - 1 ≤ to_ := by
  simp [contains, h.from_eq, h.to_eq]

theorem intersects_iff {n : Node} (h : Covers array n lo size) :
    intersects from_ to_ n.from_ n.to_ = true ↔
      (from_ ≤ lo ∧ lo ≤ to_) ∨ (lo ≤ from_ ∧ from_ ≤ lo + size - 1) := by
  simp [intersects, h.from_eq, h.to_eq]

/-- The answers of the halves. -/
theorem Answers.halves [Std.Associative q.combine] [Std.Commutative q.combine] {r₁ r₂ : ChartValue}
    {a b : Nat} (h₁ : Answers q array from_ to_ lo a r₁)
    (h₂ : Answers q array from_ to_ (lo + a) b r₂) :
    Answers q array from_ to_ lo (a + b) (q.combine r₁ r₂) := by
  have hassoc : ∀ x y z, q.combine (q.combine x y) z = q.combine x (q.combine y z) :=
    Std.Associative.assoc
  have hcomm : ∀ x y, q.combine x y = q.combine y x := Std.Commutative.comm
  refine ⟨?_, fun _ => ?_⟩
  · rw [part_add]
    exact foldl_append_of_parts h₁.part_eq h₂.part_eq
  · -- one of the halves is not contained
    by_cases hleft : from_ ≤ lo ∧ lo + a - 1 ≤ to_
    · rw [hcomm r₁, ← hassoc, h₂.start (by omega)]
    · rw [← hassoc, h₁.start hleft]

/-- A node in the range answers for itself. -/
theorem Answers.contained {r : ChartValue} (hcontained : from_ ≤ lo ∧ lo + size - 1 ≤ to_)
    (h : Summary q.combine (values array lo size) r) : Answers q array from_ to_ lo size r := by
  refine ⟨?_, fun hnot => absurd hcontained hnot⟩
  rw [part_of_contained hcontained.1 hcontained.2]
  exact h q.outside

/-- A node outside of the range answers with the start. -/
theorem Answers.disjoint [Std.IdempotentOp q.combine]
    (hdisjoint : ∀ i : Nat, lo ≤ i → i < lo + size → ¬(from_ ≤ i ∧ i ≤ to_)) :
    Answers q array from_ to_ lo size q.outside := by
  have hidem : q.combine q.outside q.outside = q.outside := Std.IdempotentOp.idempotent q.outside
  refine ⟨?_, fun _ => hidem⟩
  rw [part_of_disjoint hdisjoint, List.foldl_nil, hidem]

/-- The three cases of a query, where nothing is pending. -/
theorem query_node {n : Node} (hn : t.heap[v]? = some n) (h : Covers array n lo size)
    (fuel : Nat) :
    query q from_ to_ (fuel + 1) v t =
      if from_ ≤ lo ∧ lo + size - 1 ≤ to_ then some (q.value n, t)
      else if (from_ ≤ lo ∧ lo ≤ to_) ∨ (lo ≤ from_ ∧ from_ ≤ lo + size - 1) then do
        let left ← query q from_ to_ fuel (2 * v) t
        let right ← query q from_ to_ fuel (2 * v + 1) left.2
        return (q.combine left.1 right.1, right.2)
      else some (q.outside, t) := by
  have hpropagate : t.propagate v = some t := by
    simp [propagate, hn, h.not_pending]
  simp only [query, hn, h.not_pending, hpropagate, Bool.false_and, Option.bind_eq_bind,
    Option.bind_some, ← contains_iff h, ← intersects_iff h, Bool.false_eq_true, if_false]
  rfl

/-- **A query of a node** that is built stays in the heap, changes nothing and answers for the
values of its range. -/
theorem query_spec [Std.Associative q.combine] [Std.Commutative q.combine]
    [Std.IdempotentOp q.combine] (hle : from_ ≤ to_)
    (hvalue : ∀ {n lo size}, Covers t.array n lo size →
      Summary q.combine (values t.array lo size) (q.value n))
    (hbuilt : Built t.array t.heap v lo size) {fuel : Nat} (hfuel : size ≤ 2 ^ fuel) :
    ∃ r, query q from_ to_ (fuel + 1) v t = some (r, t) ∧
      Answers q t.array from_ to_ lo size r ∧
      (from_ ≤ lo ∧ lo + size - 1 ≤ to_ → Summary q.combine (values t.array lo size) r) := by
  induction hbuilt generalizing fuel with
  | @leaf v lo n hn h =>
      rw [query_node hn h]
      split
      · next hcontained =>
          exact ⟨_, rfl, .contained hcontained (hvalue h), fun _ => hvalue h⟩
      · next hnot =>
          rw [if_neg (by omega)]
          refine ⟨_, rfl, .disjoint fun i hi hlt hin => hnot ?_, fun hcontained => ?_⟩
          · omega
          · exact absurd hcontained hnot
  | @node v lo size n hn h hsize _ _ ihleft ihright =>
      rw [query_node hn h]
      split
      · next hcontained =>
          exact ⟨_, rfl, .contained hcontained (hvalue h), fun _ => hvalue h⟩
      · next hnot =>
          split
          · obtain ⟨g, rfl⟩ : ∃ g, fuel = g + 1 := by
              cases fuel with
              | zero => omega
              | succ g => exact ⟨g, rfl⟩
            rw [pow_succ] at hfuel
            obtain ⟨left, hleft, hleft', -⟩ := @ihleft g (by omega)
            obtain ⟨right, hright, hright', -⟩ := @ihright g (by omega)
            rw [hleft, Option.bind_eq_bind, Option.bind_some, hright]
            have hhalves := hleft'.halves hright'
            rw [Nat.add_sub_cancel' (Nat.div_le_self size 2)] at hhalves
            exact ⟨_, rfl, hhalves, fun hcontained => absurd hcontained hnot⟩
          · next hout =>
              refine ⟨_, rfl, .disjoint fun i hi hlt hin => ?_, fun hcontained => ?_⟩
              · omega
              · exact absurd hcontained hnot

/-! ## The tree of an array -/

theorem heapSize_lt_iff {n : Nat} (hn : n ≠ 0) : heapSize n < 2 ^ 31 ↔ n < 2 ^ 29 := by
  rw [heapSize, ← pow_succ', Nat.pow_lt_pow_iff_right (by decide),
    ← Nat.log_lt_iff_lt_pow (by decide) hn]
  omega

theorem ofArray_spec (hlong : kMinArraySize ≤ array.length) (hlength : array.length < 2 ^ 29) :
    ∃ heap, ofArray array = some { array, heap } ∧ Built array heap 1 0 array.length ∧
      heap.length = heapSize array.length := by
  have hpos : array.length ≠ 0 := by
    rintro hzero
    rw [hzero] at hlong
    exact absurd hlong (by decide)
  obtain ⟨heap, hbuild, hsize, hbuilt, -⟩ := @build_spec array
    (Nat.log 2 array.length + 1) 1 0 array.length (List.replicate (heapSize array.length) {})
    le_rfl (Nat.pos_of_ne_zero hpos) (Nat.lt_pow_succ_log_self (by decide) _).le
    (by simp [heapSize]) (by omega)
  rw [List.length_replicate] at hsize
  refine ⟨heap, ?_, hbuilt, hsize⟩
  rw [ofArray, if_neg (not_lt.mpr hlong), if_pos ((heapSize_lt_iff hpos).mpr hlength), hbuild]
  rfl

/-- **A query of the tree**, which has the start of the loop in it unless it is answered by the
root. -/
theorem ask_spec {heap : List Node} [Std.Associative q.combine] [Std.Commutative q.combine]
    [Std.IdempotentOp q.combine] (hlong : kMinArraySize ≤ array.length)
    (hbuilt : Built array heap 1 0 array.length) (hsize : heap.length = heapSize array.length)
    (hle : from_ ≤ to_)
    (hvalue : ∀ {n lo size}, Covers array n lo size →
      Summary q.combine (values array lo size) (q.value n)) :
    ∃ r, ask { array, heap } q from_ to_ = some (r, { array, heap }) ∧
      scan q array from_ to_ = q.combine q.outside r ∧
      (from_ ≤ 0 ∧ (array.length : Int) - 1 ≤ to_ → Summary q.combine array r) ∧
      (¬(from_ ≤ 0 ∧ (array.length : Int) - 1 ≤ to_) → q.combine q.outside r = r) := by
  obtain ⟨fuel, hfuel⟩ : ∃ fuel, heap.length = fuel + 1 ∧ array.length ≤ 2 ^ fuel := by
    have hbig : Nat.log 2 array.length + 1 < heapSize array.length := by
      have hlt := Nat.lt_two_pow_self (n := Nat.log 2 array.length + 1)
      rw [heapSize]
      omega
    refine ⟨heap.length - 1, by omega, ?_⟩
    refine (Nat.lt_pow_succ_log_self (by decide : 1 < 2) array.length).le.trans ?_
    exact Nat.pow_le_pow_right (by decide) (by omega)
  obtain ⟨r, hquery, hanswers, hwhole⟩ :=
    query_spec (t := { array, heap }) hle hvalue hbuilt hfuel.2
  have hvalues : values array 0 array.length = array := by
    rw [values_eq, List.drop_zero, List.take_length]
  simp only [Nat.cast_zero, Int.zero_add, hvalues] at hwhole
  refine ⟨r, ?_, (scan_eq q hle).trans hanswers.part_eq, hwhole, fun hnot => ?_⟩
  · rw [ask, if_neg (not_lt.mpr hlong)]
    dsimp only
    rw [hfuel.1]
    exact hquery
  · exact hanswers.start (by simpa using hnot)

instance : Std.Associative maxQuery.combine :=
  inferInstanceAs (Std.Associative (max : ChartValue → ChartValue → ChartValue))

instance : Std.Commutative maxQuery.combine :=
  inferInstanceAs (Std.Commutative (max : ChartValue → ChartValue → ChartValue))

instance : Std.IdempotentOp maxQuery.combine :=
  inferInstanceAs (Std.IdempotentOp (max : ChartValue → ChartValue → ChartValue))

instance : Std.Associative minQuery.combine :=
  inferInstanceAs (Std.Associative (min : ChartValue → ChartValue → ChartValue))

instance : Std.Commutative minQuery.combine :=
  inferInstanceAs (Std.Commutative (min : ChartValue → ChartValue → ChartValue))

instance : Std.IdempotentOp minQuery.combine :=
  inferInstanceAs (Std.IdempotentOp (min : ChartValue → ChartValue → ChartValue))

/-- The tree of the array is built in its heap, and both queries stay there and find what
the loop over the array finds. -/
def Agrees (array : List ChartValue) (from_ to_ : Int) : Prop :=
  ∃ t, ofArray array = some t ∧
    t.rMaxQ from_ to_ = some (scan maxQuery array from_ to_, t) ∧
    t.rMinQ from_ to_ = some (scan minQuery array from_ to_, t)

theorem rMinQ_spec {heap : List Node} (hlong : kMinArraySize ≤ array.length)
    (hbuilt : Built array heap 1 0 array.length) (hsize : heap.length = heapSize array.length)
    (hle : from_ ≤ to_) :
    rMinQ { array, heap } from_ to_ = some (scan minQuery array from_ to_, { array, heap }) := by
  obtain ⟨r, hask, hscan, -, -⟩ :=
    ask_spec (q := minQuery) hlong hbuilt hsize hle fun h => h.min
  rw [rMinQ, hask, hscan]
  have hr : minQuery.combine minQuery.outside r = r := min_eq_right r.le_largest
  rw [hr]

/-- The largest value of the whole array is found without the start of the loop. -/
theorem rMaxQ_iff {heap : List Node} (hlong : kMinArraySize ≤ array.length)
    (hbuilt : Built array heap 1 0 array.length) (hsize : heap.length = heapSize array.length)
    (hle : from_ ≤ to_) :
    rMaxQ { array, heap } from_ to_ = some (scan maxQuery array from_ to_, { array, heap }) ↔
      (from_ ≤ 0 ∧ (array.length : Int) - 1 ≤ to_ → ∃ x ∈ array, ChartValue.zero ≤ x) := by
  obtain ⟨r, hask, hscan, hwhole, hnot⟩ :=
    ask_spec (q := maxQuery) hlong hbuilt hsize hle fun h => h.max
  have hr : rMaxQ { array, heap } from_ to_ =
      some (scan maxQuery array from_ to_, { array, heap }) ↔ ChartValue.zero ≤ r := by
    rw [rMaxQ, hask, hscan]
    simp only [Option.some.injEq, Prod.mk.injEq, and_true]
    exact eq_comm.trans max_eq_right_iff
  rw [hr]
  by_cases hcovers : from_ ≤ 0 ∧ (array.length : Int) - 1 ≤ to_
  · -- from the least value the loop comes to the answer of the root
    have hleast : array.foldl max (ChartValue.ofInt (-2 ^ 63)) = r :=
      (hwhole hcovers _).trans (max_eq_right r.2.1)
    rw [← hleast, le_foldl_max_iff, or_iff_right (by decide)]
    exact ⟨fun h _ => h, fun h => h hcovers⟩
  · exact ⟨fun _ h => absurd h hcovers, fun _ => max_eq_right_iff.mp (hnot hcovers)⟩

/-- **The tree agrees with the loop** over an array whose heap has an `int` for its size, except
that it finds the largest value of a whole array of negative values. -/
theorem agrees_iff (hlong : kMinArraySize ≤ array.length) (hle : from_ ≤ to_) :
    Agrees array from_ to_ ↔ array.length < 2 ^ 29 ∧
      (from_ ≤ 0 ∧ (array.length : Int) - 1 ≤ to_ → ∃ x ∈ array, ChartValue.zero ≤ x) := by
  by_cases hlength : array.length < 2 ^ 29
  · obtain ⟨heap, harray, hbuilt, hsize⟩ := ofArray_spec hlong hlength
    have hmin := rMinQ_spec hlong hbuilt hsize hle
    rw [and_iff_right hlength, ← rMaxQ_iff hlong hbuilt hsize hle]
    constructor
    · rintro ⟨t, ht, hmax, -⟩
      rw [harray, Option.some.injEq] at ht
      exact ht ▸ hmax
    · exact fun hmax => ⟨_, harray, hmax, hmin⟩
  · refine iff_of_false ?_ fun h => hlength h.1
    rintro ⟨t, ht, -⟩
    have hpos : array.length ≠ 0 := by omega
    rw [ofArray, if_neg (not_lt.mpr hlong), if_neg ((heapSize_lt_iff hpos).not.mpr hlength)] at ht
    cases ht

/-- Thirty values of one less than zero. -/
def allNegative : List ChartValue := List.replicate 30 (.ofInt (-1))

/-- The largest value of a chart below zero is not the zero of the loop. -/
theorem not_agrees_allNegative : ¬Agrees allNegative 0 29 := by
  have hlong : kMinArraySize ≤ allNegative.length := le_rfl
  obtain ⟨heap, harray, hbuilt, hsize⟩ := ofArray_spec hlong (by decide)
  rintro ⟨t, ht, hmax, -⟩
  rw [harray, Option.some.injEq] at ht
  subst ht
  obtain ⟨x, hx, hzero⟩ := (rMaxQ_iff hlong hbuilt hsize (by decide)).mp hmax (by decide)
  rw [List.eq_of_mem_replicate hx] at hzero
  exact absurd hzero (by decide)

/-- A part of it agrees. -/
theorem agrees_part : Agrees allNegative 0 28 :=
  (agrees_iff (by decide) (by decide)).mpr ⟨by decide, fun h => absurd h.2 (by decide)⟩

end SegmentTree

end Statistic

end MessengerClient
