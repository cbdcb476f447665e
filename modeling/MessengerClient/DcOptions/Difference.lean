import Mathlib
import MessengerClient.DcOptions.Loading

/-!
# MessengerClient.DcOptions.Difference

A full list of options that replaces the old one.

The two maps are merged in the order of their dcs, and the new one is only stored where
the merge finds a difference.  It looks at the addresses: a dc that has the same ones with
other flags, another secret or in another order is passed over.
-/

namespace MessengerClient

namespace MTP

variable {Key : Type} {rsa : RSA Key}

namespace Options

/-! ## Lists of entries -/

/-- The endpoints of a dc in a list of entries. -/
def listAt (dcId : DcId) (es : List (DcId × List Endpoint)) : List Endpoint :=
  (FlatMap.lookup dcId es).getD []

/-- The largest `DcId`, which stands for the end of a map. -/
def maxDcId : DcId := ⟨2 ^ 31 - 1, by decide⟩

/-- The entries of a map of options: in order, with some endpoint in each. -/
structure Listed (es : List (DcId × List Endpoint)) : Prop where
  sorted : es.Pairwise fun a b => a.1 < b.1
  filled : ∀ e ∈ es, e.2 ≠ []

theorem endpoints_eq_listAt (data : Options) (dcId : DcId) :
    data.endpoints dcId = listAt dcId data.map.entries := rfl

theorem listed (data : Options) : Listed data.map.entries :=
  ⟨data.map.sorted, fun _ he => data.ne_nil _ _ (FlatMap.mem_entries_iff.mp he)⟩

theorem listAt_nil (dcId : DcId) : listAt dcId [] = [] := rfl

theorem listAt_cons (dcId : DcId) (e : DcId × List Endpoint) (es : List (DcId × List Endpoint)) :
    listAt dcId (e :: es) = if e.1 = dcId then e.2 else listAt dcId es := by
  unfold listAt
  rw [FlatMap.lookup]
  split <;> rfl

theorem listAt_eq_nil {dcId : DcId} {es : List (DcId × List Endpoint)}
    (h : ∀ e ∈ es, dcId < e.1) : listAt dcId es = [] := by
  have hnone : FlatMap.lookup dcId es = none :=
    FlatMap.lookup_eq_none_iff.mpr fun e he => (h e he).ne'
  rw [listAt, hnone]
  rfl

namespace Listed

variable {e : DcId × List Endpoint} {es : List (DcId × List Endpoint)}

theorem tail (h : Listed (e :: es)) : Listed es :=
  ⟨h.sorted.of_cons, fun d hd => h.filled d (List.mem_cons_of_mem e hd)⟩

theorem head_ne_nil (h : Listed (e :: es)) : e.2 ≠ [] := h.filled e List.mem_cons_self

theorem lt_tail (h : Listed (e :: es)) : ∀ d ∈ es, e.1 < d.1 := (List.pairwise_cons.mp h.sorted).1

theorem lt_of_lt (h : Listed (e :: es)) {dcId : DcId} (hlt : dcId < e.1) :
    ∀ d ∈ e :: es, dcId < d.1 := by
  intro d hd
  cases List.mem_cons.mp hd with
  | inl heq => exact heq ▸ hlt
  | inr hmem => exact hlt.trans (h.lt_tail d hmem)

/-- A dc before the first one has no endpoints. -/
theorem listAt_before (h : Listed (e :: es)) {dcId : DcId} (hlt : dcId < e.1) :
    listAt dcId (e :: es) = [] := listAt_eq_nil (h.lt_of_lt hlt)

/-- Nor has the first dc any behind its entry. -/
theorem listAt_tail (h : Listed (e :: es)) : listAt e.1 es = [] := listAt_eq_nil h.lt_tail

end Listed

/-! ## Equal lists -/

theorem equal_self (m : List Endpoint) : equal m m = true := by
  simp only [equal, beq_self_eq_true, Bool.true_and, List.all_eq_true, List.any_eq_true]
  intro e he
  exact ⟨e, he, by simp [Endpoint.sameAddress]⟩

theorem equal_nil_right {m : List Endpoint} (h : m ≠ []) : equal m [] = false := by
  cases m with
  | nil => exact absurd rfl h
  | cons e m => rfl

theorem equal_nil_left {n : List Endpoint} (h : n ≠ []) : equal [] n = false := by
  cases n with
  | nil => exact absurd rfl h
  | cons e n => rfl

/-! ## The merge -/

theorem le_maxDcId (dcId : DcId) : dcId ≤ maxDcId := by
  have h := dcId.2.2
  exact Subtype.coe_le_coe.mp (by simp only [maxDcId]; omega)

theorem lt_maxDcId_iff (dcId : DcId) : dcId.1 < 2 ^ 31 - 1 ↔ dcId ≠ maxDcId :=
  (Subtype.coe_lt_coe (y := maxDcId)).trans (le_maxDcId dcId).lt_iff_ne

/-- Where both maps begin with one dc, the others say whether they have the largest one. -/
theorem listAt_maxDcId_iff {a b : DcId × List Endpoint} {as bs : List (DcId × List Endpoint)}
    (ha : Listed (a :: as)) (hb : Listed (b :: bs)) (hid : a.1 = b.1) :
    (listAt maxDcId as = [] ↔ listAt maxDcId bs = []) ↔
      (listAt maxDcId (a :: as) = [] ↔ listAt maxDcId (b :: bs) = []) := by
  rw [listAt_cons, listAt_cons, ← hid]
  split
  · next hmax =>
      rw [← hmax, ha.listAt_tail, hid, hb.listAt_tail]
      simp [ha.head_ne_nil, hb.head_ne_nil]
  · rfl

/-- The merge gets to the end unless just one of the maps has the largest dc. -/
theorem countDifference_isSome_iff {as bs : List (DcId × List Endpoint)} (ha : Listed as)
    (hb : Listed bs) :
    (countDifference as bs).isSome ↔ (listAt maxDcId as = [] ↔ listAt maxDcId bs = []) := by
  induction as, bs using countDifference.induct with
  | case1 => simp [countDifference, listAt_nil]
  | case2 a as hlt ih =>
      rw [countDifference, if_pos hlt, Option.isSome_map, ih ha.tail hb, listAt_cons,
        if_neg ((lt_maxDcId_iff a.1).mp hlt)]
  | case3 a as hge =>
      have hmax : a.1 = maxDcId := by simpa only [lt_maxDcId_iff, not_not] using hge
      rw [countDifference, if_neg hge, listAt_cons, if_pos hmax]
      simp [listAt_nil, ha.head_ne_nil]
  | case4 b bs hlt ih =>
      rw [countDifference, if_pos hlt, Option.isSome_map, ih ha hb.tail, listAt_cons,
        if_neg ((lt_maxDcId_iff b.1).mp hlt)]
  | case5 b bs hge =>
      have hmax : b.1 = maxDcId := by simpa only [lt_maxDcId_iff, not_not] using hge
      rw [countDifference, if_neg hge, listAt_cons, if_pos hmax]
      simp [listAt_nil, hb.head_ne_nil]
  | case6 a as b bs hlt ih =>
      have hne : a.1 ≠ maxDcId := (lt_of_lt_of_le (show a.1 < b.1 from hlt) (le_maxDcId b.1)).ne
      rw [countDifference, if_pos hlt, Option.isSome_map, ih ha.tail hb, listAt_cons _ a,
        if_neg hne]
  | case7 a as b bs hab hba ih =>
      have hne : b.1 ≠ maxDcId := (lt_of_lt_of_le (show b.1 < a.1 from hba) (le_maxDcId a.1)).ne
      rw [countDifference, if_neg hab, if_pos hba, Option.isSome_map, ih ha hb.tail,
        listAt_cons _ b, if_neg hne]
  | case8 a as b bs hab hba heq ih =>
      rw [countDifference, if_neg hab, if_neg hba, if_pos heq, ih ha.tail hb.tail]
      exact listAt_maxDcId_iff ha hb (le_antisymm (not_lt.mp hba) (not_lt.mp hab))
  | case9 a as b bs hab hba heq ih =>
      rw [countDifference, if_neg hab, if_neg hba, if_neg heq, Option.isSome_map,
        ih ha.tail hb.tail]
      exact listAt_maxDcId_iff ha hb (le_antisymm (not_lt.mp hba) (not_lt.mp hab))

/-- **The merge.**  It finds the dcs whose lists are not `equal`, each once. -/
theorem mem_countDifference {as bs : List (DcId × List Endpoint)} (ha : Listed as)
    (hb : Listed bs) {result : List DcId} (h : countDifference as bs = some result)
    (dcId : DcId) : dcId ∈ result ↔ equal (listAt dcId as) (listAt dcId bs) = false := by
  induction as, bs using countDifference.induct generalizing result with
  | case1 =>
      rw [countDifference] at h
      cases h
      simp [listAt_nil, equal]
  | case2 a as hlt ih =>
      rw [countDifference, if_pos hlt] at h
      obtain ⟨result, hresult, rfl⟩ := Option.map_eq_some_iff.mp h
      rw [List.mem_cons, ih ha.tail hb hresult, listAt_cons]
      split
      · next heq => simp [heq, listAt_nil, equal_nil_right ha.head_ne_nil]
      · next hne => simp [Ne.symm hne]
  | case3 a as hge =>
      rw [countDifference, if_neg hge] at h
      cases h
  | case4 b bs hlt ih =>
      rw [countDifference, if_pos hlt] at h
      obtain ⟨result, hresult, rfl⟩ := Option.map_eq_some_iff.mp h
      rw [List.mem_cons, ih ha hb.tail hresult, listAt_cons]
      split
      · next heq => simp [heq, listAt_nil, equal_nil_left hb.head_ne_nil]
      · next hne => simp [Ne.symm hne]
  | case5 b bs hge =>
      rw [countDifference, if_neg hge] at h
      cases h
  | case6 a as b bs hab ih =>
      rw [countDifference, if_pos hab] at h
      obtain ⟨result, hresult, rfl⟩ := Option.map_eq_some_iff.mp h
      rw [List.mem_cons, ih ha.tail hb hresult, listAt_cons _ a]
      split
      · next heq =>
          rw [← heq, hb.listAt_before hab, equal_nil_right ha.head_ne_nil]
          simp
      · next hne => simp [Ne.symm hne]
  | case7 a as b bs hab hba ih =>
      rw [countDifference, if_neg hab, if_pos hba] at h
      obtain ⟨result, hresult, rfl⟩ := Option.map_eq_some_iff.mp h
      rw [List.mem_cons, ih ha hb.tail hresult, listAt_cons _ b]
      split
      · next heq =>
          rw [← heq, ha.listAt_before hba, equal_nil_left hb.head_ne_nil]
          simp
      · next hne => simp [Ne.symm hne]
  | case8 a as b bs hab hba heq ih =>
      have hid : a.1 = b.1 := le_antisymm (not_lt.mp hba) (not_lt.mp hab)
      rw [countDifference, if_neg hab, if_neg hba, if_pos heq] at h
      rw [ih ha.tail hb.tail h, listAt_cons, listAt_cons, ← hid]
      split
      · next hdc => rw [← hdc, ha.listAt_tail, hid, hb.listAt_tail, heq, equal_self]
      · rfl
  | case9 a as b bs hab hba heq ih =>
      have hid : a.1 = b.1 := le_antisymm (not_lt.mp hba) (not_lt.mp hab)
      rw [countDifference, if_neg hab, if_neg hba, if_neg heq] at h
      obtain ⟨result, hresult, rfl⟩ := Option.map_eq_some_iff.mp h
      rw [List.mem_cons, ih ha.tail hb.tail hresult, listAt_cons, listAt_cons, ← hid]
      split
      · next hdc => simp [hdc, heq]
      · next hne => simp [Ne.symm hne]

/-- What it finds is behind anything that both maps are behind. -/
theorem lt_of_mem_countDifference {as bs : List (DcId × List Endpoint)} (ha : Listed as)
    (hb : Listed bs) {result : List DcId} (h : countDifference as bs = some result) {x : DcId}
    (hxa : ∀ a ∈ as, x < a.1) (hxb : ∀ b ∈ bs, x < b.1) : ∀ dcId ∈ result, x < dcId := by
  intro dcId hdc
  by_contra hle
  rw [not_lt] at hle
  rw [mem_countDifference ha hb h, listAt_eq_nil fun a hmem => hle.trans_lt (hxa a hmem),
    listAt_eq_nil fun b hmem => hle.trans_lt (hxb b hmem), equal_self] at hdc
  cases hdc

/-- A dc that is found in front of both maps is found once. -/
theorem nodup_cons_countDifference {as bs : List (DcId × List Endpoint)} (ha : Listed as)
    (hb : Listed bs) {result : List DcId} (h : countDifference as bs = some result) {x : DcId}
    (hxa : ∀ a ∈ as, x < a.1) (hxb : ∀ b ∈ bs, x < b.1) (hnodup : result.Nodup) :
    (x :: result).Nodup :=
  List.nodup_cons.mpr
    ⟨fun hmem => lt_irrefl x (lt_of_mem_countDifference ha hb h hxa hxb x hmem), hnodup⟩

theorem nodup_countDifference {as bs : List (DcId × List Endpoint)} (ha : Listed as)
    (hb : Listed bs) {result : List DcId} (h : countDifference as bs = some result) :
    result.Nodup := by
  induction as, bs using countDifference.induct generalizing result with
  | case1 =>
      rw [countDifference] at h
      cases h
      exact List.nodup_nil
  | case2 a as hlt ih =>
      rw [countDifference, if_pos hlt] at h
      obtain ⟨result, hresult, rfl⟩ := Option.map_eq_some_iff.mp h
      exact nodup_cons_countDifference ha.tail hb hresult ha.lt_tail (by simp)
        (ih ha.tail hb hresult)
  | case3 a as hge =>
      rw [countDifference, if_neg hge] at h
      cases h
  | case4 b bs hlt ih =>
      rw [countDifference, if_pos hlt] at h
      obtain ⟨result, hresult, rfl⟩ := Option.map_eq_some_iff.mp h
      exact nodup_cons_countDifference ha hb.tail hresult (by simp) hb.lt_tail
        (ih ha hb.tail hresult)
  | case5 b bs hge =>
      rw [countDifference, if_neg hge] at h
      cases h
  | case6 a as b bs hab ih =>
      rw [countDifference, if_pos hab] at h
      obtain ⟨result, hresult, rfl⟩ := Option.map_eq_some_iff.mp h
      exact nodup_cons_countDifference ha.tail hb hresult ha.lt_tail (hb.lt_of_lt hab)
        (ih ha.tail hb hresult)
  | case7 a as b bs hab hba ih =>
      rw [countDifference, if_neg hab, if_pos hba] at h
      obtain ⟨result, hresult, rfl⟩ := Option.map_eq_some_iff.mp h
      exact nodup_cons_countDifference ha hb.tail hresult (ha.lt_of_lt hba) hb.lt_tail
        (ih ha hb.tail hresult)
  | case8 a as b bs hab hba heq ih =>
      rw [countDifference, if_neg hab, if_neg hba, if_pos heq] at h
      exact ih ha.tail hb.tail h
  | case9 a as b bs hab hba heq ih =>
      have hid : a.1 = b.1 := le_antisymm (not_lt.mp hba) (not_lt.mp hab)
      rw [countDifference, if_neg hab, if_neg hba, if_neg heq] at h
      obtain ⟨result, hresult, rfl⟩ := Option.map_eq_some_iff.mp h
      exact nodup_cons_countDifference ha.tail hb.tail hresult ha.lt_tail (hid ▸ hb.lt_tail)
        (ih ha.tail hb.tail hresult)

/-- No option yet. -/
def empty : Options where
  map := ∅
  ne_nil dcId list h :=
    absurd ((FlatMap.find?_empty dcId).symm.trans h) (Option.some_ne_none list).symm
  own dcId list h :=
    absurd ((FlatMap.find?_empty dcId).symm.trans h) (Option.some_ne_none list).symm
  distinct dcId list h :=
    absurd ((FlatMap.find?_empty dcId).symm.trans h) (Option.some_ne_none list).symm

/-- A list of options is applied to an empty map. -/
def ofList (options : List MTPDcOption) : Options := options.foldl applyOption empty

end Options

/-! ## The update -/

namespace DcOptions

open Options

/-- The new options are stored as they are, and those dcs are fired that have other
endpoints than before. -/
def Replaces (s : DcOptions rsa) (options : List MTPDcOption) : Prop :=
  ∃ r, s.setFromList options = some r ∧ r.1.data = ofList options ∧ r.2.Nodup ∧
    ∀ dcId, dcId ∈ r.2 ↔ s.data.endpoints dcId ≠ (ofList options).endpoints dcId

/-- No dc keeps its addresses and gets other endpoints, and the largest dc is in both maps
or in none of them. -/
def Noticed (old new : Options) : Prop :=
  (∀ dcId, equal (old.endpoints dcId) (new.endpoints dcId) = true →
    old.endpoints dcId = new.endpoints dcId) ∧
  (old.endpoints maxDcId = [] ↔ new.endpoints maxDcId = [])

theorem setFromList_eq (s : DcOptions rsa) {options : List MTPDcOption} (hoptions : options ≠ [])
    (hs : s.immutable = false) :
    s.setFromList options =
      (countDifference s.data.map.entries (ofList options).map.entries).map fun result =>
        (if result.isEmpty then s else { s with data := ofList options }, result) := by
  have hif : ¬ (options.isEmpty || s.immutable) = true := by simp [hoptions, hs]
  rw [setFromList, processFromList, if_neg hif]
  rfl

/-- Where nothing is found nothing has changed. -/
theorem data_eq_of_noticed {old new : Options}
    (h : ∀ dcId, equal (old.endpoints dcId) (new.endpoints dcId) = true →
      old.endpoints dcId = new.endpoints dcId)
    (hnone : ∀ dcId, equal (old.endpoints dcId) (new.endpoints dcId) = true) : old = new :=
  ext_endpoints fun dcId => h dcId (hnone dcId)

/-- What is fired tells which dcs have other endpoints. -/
theorem noticed_of_replaces {s : DcOptions rsa} {options : List MTPDcOption}
    (hoptions : options ≠ []) (hs : s.immutable = false) (h : s.Replaces options) :
    Noticed s.data (ofList options) := by
  have hold := listed s.data
  have hnew := listed (ofList options)
  obtain ⟨r, hr, -, -, hfired⟩ := h
  rw [s.setFromList_eq hoptions hs] at hr
  obtain ⟨result, hresult, rfl⟩ := Option.map_eq_some_iff.mp hr
  constructor
  · intro dcId hequal
    by_contra hne
    have hmem := (mem_countDifference hold hnew hresult dcId).mp ((hfired dcId).mpr hne)
    rw [← endpoints_eq_listAt, ← endpoints_eq_listAt, hequal] at hmem
    cases hmem
  · exact (countDifference_isSome_iff hold hnew).mp (Option.isSome_of_mem hresult)

theorem replaces_of_noticed {s : DcOptions rsa} {options : List MTPDcOption}
    (hoptions : options ≠ []) (hs : s.immutable = false)
    (h : Noticed s.data (ofList options)) : s.Replaces options := by
  have hold := listed s.data
  have hnew := listed (ofList options)
  obtain ⟨hequal, hmax⟩ := h
  obtain ⟨result, hresult⟩ :=
    Option.isSome_iff_exists.mp ((countDifference_isSome_iff hold hnew).mpr hmax)
  have hset := s.setFromList_eq hoptions hs
  rw [hresult, Option.map_some] at hset
  have hmem := mem_countDifference hold hnew hresult
  refine ⟨_, hset, ?_, nodup_countDifference hold hnew hresult, fun dcId => ?_⟩
  · dsimp only
    split
    · next hempty =>
        refine data_eq_of_noticed hequal fun dcId => ?_
        have hnot : dcId ∉ result := by simp [List.isEmpty_iff.mp hempty]
        rwa [hmem, Bool.not_eq_false] at hnot
    · rfl
  · rw [hmem, ← endpoints_eq_listAt, ← endpoints_eq_listAt]
    constructor
    · intro hfalse heq
      rw [heq, equal_self] at hfalse
      cases hfalse
    · exact fun hne => Bool.eq_false_iff.mpr fun htrue => hne (hequal dcId htrue)

/-- **Replacing.**  A list that is set replaces the options, and the dcs that have changed
are fired, just when `Noticed` holds between the old options and the new ones. -/
theorem replaces_iff_noticed {s : DcOptions rsa} {options : List MTPDcOption}
    (hoptions : options ≠ []) (hs : s.immutable = false) :
    s.Replaces options ↔ Noticed s.data (ofList options) :=
  ⟨noticed_of_replaces hoptions hs, replaces_of_noticed hoptions hs⟩

/-- The addresses of the first test dc, without the flag of the built-in ones. -/
def plainOptions : List MTPDcOption :=
  [ .dcOption 0 1 (QByteArray.ofBytes
      ("149.154.175.10".toList.map fun c => UInt8.ofNat c.toNat)) 443 none,
    .dcOption 1 1 (QByteArray.ofBytes
      ("2001:0b28:f23d:f001:0000:0000:0000:000e".toList.map fun c => UInt8.ofNat c.toNat))
      443 none ]

theorem replaces_iff_noticed_plainOptions :
    (DcOptions.construct partsRSA .Test).Replaces plainOptions ↔
      Noticed (DcOptions.construct partsRSA .Test).data (ofList plainOptions) :=
  replaces_iff_noticed (by simp [plainOptions]) rfl

/-- The flag stays on the endpoints of the test dc. -/
theorem not_replaces :
    ¬ ∀ (s : DcOptions partsRSA) (options : List MTPDcOption), options ≠ [] →
      s.immutable = false → s.Replaces options := by
  intro h
  have hoptions : plainOptions ≠ [] := by simp [plainOptions]
  have hnoticed := noticed_of_replaces hoptions rfl
    (h (DcOptions.construct partsRSA .Test) plainOptions hoptions rfl)
  have hequal : equal ((DcOptions.construct partsRSA .Test).data.endpoints ⟨1, by decide⟩)
      ((ofList plainOptions).endpoints ⟨1, by decide⟩) = true := by decide +kernel
  have hne : (DcOptions.construct partsRSA .Test).data.endpoints ⟨1, by decide⟩ ≠
      (ofList plainOptions).endpoints ⟨1, by decide⟩ := by decide +kernel
  exact hne (hnoticed.1 _ hequal)

end DcOptions

end MTP

end MessengerClient
