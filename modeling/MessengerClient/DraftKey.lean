import Mathlib
import MessengerClient.MsgId
import MessengerClient.PeerId

/-!
# MessengerClient.DraftKey

`Data::DraftKey` of `data/data_drafts.h`: the kind of a draft, the topic or the peer it
belongs to, and a few special indices in one signed 64-bit number.

The masked ranges of the classifications are read as remainders (`masked_eq`,
`hasMonoforumBit_iff`).  `decode` undoes every key but two: a negative index that the shift
of the edited drafts is added to is a number in the range of the local ones.
-/

namespace MessengerClient

namespace Data

/-! ## Keys -/

def ServerMaxMsgId : MsgId := 2 ^ 56

structure DraftKey where
  value : Int
deriving DecidableEq, Repr

namespace DraftKey

def kLocalDraftIndex : Int := -1
def kCloudDraftIndex : Int := -2
def kScheduledDraftIndex : Int := -3
def kMonoforumDraftBit : Int := 2 ^ 60
def kMonoforumDraftMask : Int := kMonoforumDraftBit - 1
def kEditDraftShift : Int := ServerMaxMsgId
def kCloudDraftShift : Int := 2 * ServerMaxMsgId
def kShortcutDraftShift : Int := 3 * ServerMaxMsgId

/-- The key of a sum that is computed in 64 bits. -/
def ofSum (sum : Int) : DraftKey := { value := sum.bmod (2 ^ 64) }

def none : DraftKey := { value := 0 }

/-- The peer is compared as an `int64`. -/
def invalid (topicRootId : MsgId) (monoforumPeerId : PeerId) : Bool :=
  topicRootId < 0 || topicRootId ≥ ServerMaxMsgId || !peerIsUser monoforumPeerId ||
    monoforumPeerId.value.toInt64.toInt ≥ ServerMaxMsgId

def local_ (topicRootId : MsgId) (monoforumPeerId : PeerId) : DraftKey :=
  if invalid topicRootId monoforumPeerId then
    none
  else if topicRootId ≠ 0 then
    ofSum topicRootId
  else if monoforumPeerId.value ≠ 0 then
    ofSum (monoforumPeerId.value.toNat + kMonoforumDraftBit)
  else
    ofSum kLocalDraftIndex

def localEdit (topicRootId : MsgId) (monoforumPeerId : PeerId) : DraftKey :=
  if invalid topicRootId monoforumPeerId then
    none
  else if topicRootId ≠ 0 then
    ofSum (kEditDraftShift + topicRootId)
  else if monoforumPeerId.value ≠ 0 then
    ofSum (kEditDraftShift + (monoforumPeerId.value.toNat + kMonoforumDraftBit))
  else
    ofSum (kEditDraftShift + kLocalDraftIndex)

def cloud (topicRootId : MsgId) (monoforumPeerId : PeerId) : DraftKey :=
  if invalid topicRootId monoforumPeerId then
    none
  else if topicRootId ≠ 0 then
    ofSum (kCloudDraftShift + topicRootId)
  else if monoforumPeerId.value ≠ 0 then
    ofSum (kCloudDraftShift + monoforumPeerId.value.toNat + kMonoforumDraftBit)
  else
    ofSum kCloudDraftIndex

def scheduled : DraftKey := ofSum kScheduledDraftIndex

def scheduledEdit : DraftKey := ofSum (kScheduledDraftIndex + kEditDraftShift)

def shortcut (shortcutId : Int) : DraftKey :=
  if shortcutId < 0 ∨ shortcutId ≥ ServerMaxMsgId then none
  else ofSum (kShortcutDraftShift + shortcutId)

def shortcutEdit (shortcutId : Int) : DraftKey :=
  if shortcutId < 0 ∨ shortcutId ≥ ServerMaxMsgId then none
  else ofSum (kShortcutDraftShift + kEditDraftShift + shortcutId)

/-! ## Classifications -/

/-- `_value & kMonoforumDraftMask`. -/
def masked (key : DraftKey) : Int :=
  (BitVec.ofInt 64 key.value &&& BitVec.ofInt 64 kMonoforumDraftMask).toInt

/-- `_value & kMonoforumDraftBit`. -/
def hasMonoforumBit (key : DraftKey) : Bool :=
  BitVec.ofInt 64 key.value &&& BitVec.ofInt 64 kMonoforumDraftBit != 0

def isLocal (key : DraftKey) : Bool :=
  key.value == kLocalDraftIndex || key.value > 0 && key.masked < ServerMaxMsgId

def isCloud (key : DraftKey) : Bool :=
  key.value == kCloudDraftIndex ||
    key.masked > kCloudDraftShift && key.masked < kCloudDraftShift + ServerMaxMsgId

def topicRootId (key : DraftKey) : MsgId :=
  let max := ServerMaxMsgId
  if key.hasMonoforumBit then 0
  else if key.value > kCloudDraftShift ∧ key.value < kCloudDraftShift + max then
    key.value - kCloudDraftShift
  else if key.value > kEditDraftShift ∧ key.value < kEditDraftShift + max then
    key.value - kEditDraftShift
  else if key.value > 0 ∧ key.value < max then key.value
  else 0

/-- The peer of a user, `PeerId(UserId(id))`. -/
def userPeer (id : Int) : PeerId := peerFromUser (UInt64.ofNat id.toNat)

def monoforumPeerId (key : DraftKey) : PeerId :=
  let max := ServerMaxMsgId
  let value := key.masked
  if !key.hasMonoforumBit then {}
  else if value > kCloudDraftShift ∧ value < kCloudDraftShift + max then
    userPeer (value - kCloudDraftShift)
  else if value > kEditDraftShift ∧ value < kEditDraftShift + max then
    userPeer (value - kEditDraftShift)
  else if value > 0 ∧ value < max then userPeer value
  else {}

/-! ## Masks as remainders -/

theorem toNat_ofInt (value : Int) : ((BitVec.ofInt 64 value).toNat : Int) = value % 2 ^ 64 := by
  rw [BitVec.toNat_ofInt, Int.toNat_of_nonneg (Int.emod_nonneg _ (by decide))]
  rfl

theorem masked_eq (key : DraftKey) : key.masked = key.value % 2 ^ 60 := by
  have hmask : (BitVec.ofInt 64 kMonoforumDraftMask).toNat = 2 ^ 60 - 1 := by decide
  have hvalue := toNat_ofInt key.value
  have hand : (BitVec.ofInt 64 key.value &&& BitVec.ofInt 64 kMonoforumDraftMask).toNat =
      (BitVec.ofInt 64 key.value).toNat % 2 ^ 60 := by
    rw [BitVec.toNat_and, hmask, Nat.and_two_pow_sub_one_eq_mod]
  rw [masked, BitVec.toInt_eq_toNat_of_lt (by rw [hand]; omega), hand]
  omega

theorem hasMonoforumBit_iff (key : DraftKey) :
    key.hasMonoforumBit = true ↔ 2 ^ 60 ≤ key.value % 2 ^ 61 := by
  have hbit : (BitVec.ofInt 64 kMonoforumDraftBit).toNat = 2 ^ 60 := by decide
  have hvalue := toNat_ofInt key.value
  have hand : (BitVec.ofInt 64 key.value &&& BitVec.ofInt 64 kMonoforumDraftBit).toNat =
      2 ^ 60 * ((BitVec.ofInt 64 key.value).toNat.testBit 60).toNat := by
    rw [BitVec.toNat_and, hbit, Nat.and_comm, Nat.two_pow_and]
  have htest : key.hasMonoforumBit = true ↔
      (BitVec.ofInt 64 key.value).toNat.testBit 60 = true := by
    rw [hasMonoforumBit, bne_iff_ne, ne_eq, ← BitVec.toNat_inj, hand]
    cases (BitVec.ofInt 64 key.value).toNat.testBit 60 <;> decide
  rw [htest, Nat.testBit_eq_decide_div_mod_eq, decide_eq_true_eq]
  omega

/-! ## What keys are made for -/

/-- The kind of a draft with what it belongs to. -/
inductive Source where
  | local_ (topicRootId : MsgId) (monoforumPeerId : PeerId)
  | localEdit (topicRootId : MsgId) (monoforumPeerId : PeerId)
  | cloud (topicRootId : MsgId) (monoforumPeerId : PeerId)
  | scheduled
  | scheduledEdit
  | shortcut (shortcutId : Int)
  | shortcutEdit (shortcutId : Int)
deriving DecidableEq, Repr

namespace Source

def key : Source → DraftKey
  | .local_ topicRootId monoforumPeerId => DraftKey.local_ topicRootId monoforumPeerId
  | .localEdit topicRootId monoforumPeerId => DraftKey.localEdit topicRootId monoforumPeerId
  | .cloud topicRootId monoforumPeerId => DraftKey.cloud topicRootId monoforumPeerId
  | .scheduled => DraftKey.scheduled
  | .scheduledEdit => DraftKey.scheduledEdit
  | .shortcut shortcutId => DraftKey.shortcut shortcutId
  | .shortcutEdit shortcutId => DraftKey.shortcutEdit shortcutId

/-- A topic or the peer of a user, not both. -/
structure ValidThread (topicRootId : MsgId) (monoforumPeerId : PeerId) : Prop where
  topic : 0 ≤ topicRootId ∧ topicRootId < ServerMaxMsgId
  user : peerIsUser monoforumPeerId = true
  peer : (monoforumPeerId.value.toNat : Int) < ServerMaxMsgId
  one : topicRootId = 0 ∨ monoforumPeerId.value = 0

def Valid : Source → Prop
  | .local_ t p | .localEdit t p | .cloud t p => ValidThread t p
  | .scheduled | .scheduledEdit => True
  | .shortcut id | .shortcutEdit id => 0 < id ∧ id < ServerMaxMsgId

def topicRootId? : Source → Option MsgId
  | .local_ t _ | .localEdit t _ | .cloud t _ => some t
  | _ => Option.none

def monoforumPeerId? : Source → Option PeerId
  | .local_ _ p | .localEdit _ p | .cloud _ p => some p
  | _ => Option.none

def isLocal : Source → Bool
  | .local_ .. => true
  | _ => false

def isCloud : Source → Bool
  | .cloud .. => true
  | _ => false

/-- The key is no other one's, and is read as what it was made for. -/
structure Unmixed (source : Source) : Prop where
  different : ∀ other : Source, other.Valid → other.key = source.key → other = source
  topic : ∀ t, source.topicRootId? = some t → source.key.topicRootId = t
  peer : ∀ p, source.monoforumPeerId? = some p → source.key.monoforumPeerId = p
  local_ : source.key.isLocal = source.isLocal
  cloud : source.key.isCloud = source.isCloud

/-! ## Regions of numbers -/

/-- The number of a thread before it is shifted. -/
def index (topicRootId : MsgId) (monoforumPeerId : PeerId) : Int :=
  if topicRootId ≠ 0 then topicRootId
  else if monoforumPeerId.value ≠ 0 then monoforumPeerId.value.toNat + kMonoforumDraftBit
  else kLocalDraftIndex

/-- The numbers of topics and of shortcuts, or those of peers. -/
def Regular (n : Int) : Prop :=
  0 < n ∧ n < ServerMaxMsgId ∨
    kMonoforumDraftBit < n ∧ n < kMonoforumDraftBit + ServerMaxMsgId

/-- The topic of a regular number, or else its peer. -/
def topicOf (n : Int) : MsgId := if n < ServerMaxMsgId then n else 0

def peerOf (n : Int) : PeerId := if n < ServerMaxMsgId then {} else userPeer (n - kMonoforumDraftBit)

/-- What has the regular number `n` in the region `r`. -/
def region (r n : Int) : Source :=
  if r = 0 then .local_ (topicOf n) (peerOf n)
  else if r = 1 then .localEdit (topicOf n) (peerOf n)
  else if r = 2 then .cloud (topicOf n) (peerOf n)
  else if r = 3 then .shortcut n
  else .shortcutEdit n

/-- The sources whose key is made of a special index. -/
def indexed : List Source :=
  [.local_ 0 {}, .cloud 0 {}, .scheduled, .localEdit 0 {}, .scheduledEdit]

theorem userPeer_toNat (id : PeerId) : userPeer id.value.toNat = id := by
  unfold userPeer peerFromUser PeerId.tagged
  rw [Int.toNat_natCast, UInt64.ofNat_toNat]
  ext1
  show id.value ||| (0 : UInt64) <<< 48 = id.value
  rw [UInt64.zero_shiftLeft, UInt64.or_zero]

/-- No sum of a valid thread or shortcut leaves the 64 bits. -/
theorem ofSum_value {sum : Int} (h : -2 ^ 62 ≤ sum ∧ sum < 2 ^ 62) : (ofSum sum).value = sum :=
  Int.bmod_eq_of_le (by omega) (by omega)

section Thread

variable {t : MsgId} {p : PeerId}

theorem ValidThread.not_invalid (h : ValidThread t p) : invalid t p = false := by
  obtain ⟨⟨hlo, hhi⟩, huser, hpeer, -⟩ := h
  unfold ServerMaxMsgId at hhi hpeer
  have hint : p.value.toInt64.toInt < 2 ^ 56 := by
    have hnat : (p.value.toBitVec.toNat : Int) < 2 ^ 56 := hpeer
    show p.value.toBitVec.toInt < 2 ^ 56
    rw [BitVec.toInt_eq_toNat_bmod]
    exact (Int.bmod_eq_of_le (by omega) (by omega)).trans_lt hnat
  have hlow : ¬ t < 0 := not_lt.mpr hlo
  have hhigh : ¬ t ≥ 2 ^ 56 := not_le.mpr hhi
  have hbound : ¬ p.value.toInt64.toInt ≥ 2 ^ 56 := not_le.mpr hint
  simp only [invalid, ServerMaxMsgId, hlow, hhigh, hbound, huser]
  rfl

theorem ValidThread.local_eq (h : ValidThread t p) :
    DraftKey.local_ t p = ofSum (index t p) := by
  rw [DraftKey.local_, if_neg (Bool.eq_false_iff.mp h.not_invalid), index]
  repeat' split
  all_goals rfl

theorem ValidThread.localEdit_eq (h : ValidThread t p) :
    DraftKey.localEdit t p = ofSum (kEditDraftShift + index t p) := by
  rw [DraftKey.localEdit, if_neg (Bool.eq_false_iff.mp h.not_invalid), index]
  repeat' split
  all_goals rfl

theorem ValidThread.cloud_eq (h : ValidThread t p) (hsome : ¬ (t = 0 ∧ p = {})) :
    DraftKey.cloud t p = ofSum (kCloudDraftShift + index t p) := by
  rw [DraftKey.cloud, if_neg (Bool.eq_false_iff.mp h.not_invalid), index]
  split
  · rfl
  · next ht =>
    split
    · rw [Int.add_assoc]
    · next hp => exact absurd ⟨not_not.mp ht, PeerId.ext (not_not.mp hp)⟩ hsome

/-- A thread that is a topic or a peer has a regular number. -/
theorem ValidThread.regular (h : ValidThread t p) (hsome : ¬ (t = 0 ∧ p = {})) :
    Regular (index t p) ∧ topicOf (index t p) = t ∧ peerOf (index t p) = p := by
  obtain ⟨⟨hlo, hhi⟩, -, hpeer, hone⟩ := h
  unfold index
  by_cases ht : t = 0
  · have hp : p.value ≠ 0 := fun hp => hsome ⟨ht, PeerId.ext hp⟩
    have hpos : 0 < p.value.toNat :=
      Nat.pos_of_ne_zero fun hzero => hp (UInt64.toNat_inj.mp hzero)
    rw [if_neg (not_not.mpr ht), if_pos hp]
    have hlarge : ¬ (p.value.toNat : Int) + kMonoforumDraftBit < ServerMaxMsgId := by
      unfold kMonoforumDraftBit ServerMaxMsgId
      omega
    refine ⟨Or.inr ⟨by omega, by omega⟩, ?_, ?_⟩
    · rw [topicOf, if_neg hlarge, ht]
    · rw [peerOf, if_neg hlarge, Int.add_sub_cancel, userPeer_toNat]
  · have hp : p = {} := PeerId.ext (hone.resolve_left ht)
    rw [if_pos ht]
    exact ⟨Or.inl ⟨lt_of_le_of_ne hlo (Ne.symm ht), hhi⟩, if_pos hhi, (if_pos hhi).trans hp.symm⟩

end Thread

theorem Regular.bounds {n : Int} (h : Regular n) : 0 < n ∧ n < 2 ^ 61 := by
  unfold Regular kMonoforumDraftBit ServerMaxMsgId at h
  omega

/-- **A valid source** is made of an index, or has a regular number in one of five regions. -/
theorem Valid.cases {source : Source} (h : source.Valid) :
    source ∈ indexed ∨ ∃ r n, 0 ≤ r ∧ r ≤ 4 ∧ Regular n ∧ source = region r n ∧
      source.key.value = r * ServerMaxMsgId + n := by
  cases source with
  | local_ t p =>
    by_cases hsome : t = 0 ∧ p = {}
    · exact Or.inl (by rw [hsome.1, hsome.2]; decide)
    · obtain ⟨hregular, ht, hp⟩ := ValidThread.regular h hsome
      have hbounds := hregular.bounds
      refine Or.inr ⟨0, index t p, by decide, by decide, hregular, ?_, ?_⟩
      · rw [region, if_pos rfl, ht, hp]
      · rw [key, ValidThread.local_eq h, ofSum_value (by omega)]
        omega
  | localEdit t p =>
    by_cases hsome : t = 0 ∧ p = {}
    · exact Or.inl (by rw [hsome.1, hsome.2]; decide)
    · obtain ⟨hregular, ht, hp⟩ := ValidThread.regular h hsome
      have hbounds := hregular.bounds
      refine Or.inr ⟨1, index t p, by decide, by decide, hregular, ?_, ?_⟩
      · rw [region, if_neg (by decide), if_pos rfl, ht, hp]
      · rw [key, ValidThread.localEdit_eq h, kEditDraftShift, ServerMaxMsgId,
          ofSum_value (by omega)]
        omega
  | cloud t p =>
    by_cases hsome : t = 0 ∧ p = {}
    · exact Or.inl (by rw [hsome.1, hsome.2]; decide)
    · obtain ⟨hregular, ht, hp⟩ := ValidThread.regular h hsome
      have hbounds := hregular.bounds
      refine Or.inr ⟨2, index t p, by decide, by decide, hregular, ?_, ?_⟩
      · rw [region, if_neg (by decide), if_neg (by decide), if_pos rfl, ht, hp]
      · rw [key, ValidThread.cloud_eq h hsome, kCloudDraftShift, ServerMaxMsgId,
          ofSum_value (by omega)]
  | scheduled => exact Or.inl (by decide)
  | scheduledEdit => exact Or.inl (by decide)
  | shortcut id =>
    obtain ⟨hlo, hhi⟩ := h
    refine Or.inr ⟨3, id, by decide, by decide, Or.inl ⟨hlo, hhi⟩, rfl, ?_⟩
    unfold ServerMaxMsgId at hhi
    rw [key, DraftKey.shortcut, if_neg (by unfold ServerMaxMsgId; omega), kShortcutDraftShift,
      ServerMaxMsgId, ofSum_value (by omega)]
  | shortcutEdit id =>
    obtain ⟨hlo, hhi⟩ := h
    refine Or.inr ⟨4, id, by decide, by decide, Or.inl ⟨hlo, hhi⟩, rfl, ?_⟩
    unfold ServerMaxMsgId at hhi
    rw [key, DraftKey.shortcutEdit, if_neg (by unfold ServerMaxMsgId; omega),
      kShortcutDraftShift, kEditDraftShift, ServerMaxMsgId, ofSum_value (by omega)]
    omega

/-- Regular numbers of different regions, or different ones of a region, have different
values. -/
theorem region_inj {r r' n n' : Int} (hr : 0 ≤ r ∧ r ≤ 4) (hr' : 0 ≤ r' ∧ r' ≤ 4)
    (hn : Regular n) (hn' : Regular n')
    (heq : r * ServerMaxMsgId + n = r' * ServerMaxMsgId + n') : r = r' ∧ n = n' := by
  unfold Regular kMonoforumDraftBit ServerMaxMsgId at *
  omega

/-! ## Reading a key -/

section Region

variable {key : DraftKey} {r n : Int} (hr : 0 ≤ r ∧ r ≤ 4) (hn : Regular n)
  (hvalue : key.value = r * ServerMaxMsgId + n)

include hr hn hvalue

theorem isLocal_region : key.isLocal = decide (r = 0) := by
  unfold Regular kMonoforumDraftBit at hn
  unfold ServerMaxMsgId at hn hvalue
  rw [DraftKey.isLocal, masked_eq, kLocalDraftIndex, ServerMaxMsgId, Bool.eq_iff_iff,
    Bool.or_eq_true, Bool.and_eq_true, beq_iff_eq, decide_eq_true_eq, decide_eq_true_eq,
    decide_eq_true_eq]
  omega

theorem isCloud_region : key.isCloud = decide (r = 2) := by
  unfold Regular kMonoforumDraftBit at hn
  unfold ServerMaxMsgId at hn hvalue
  rw [DraftKey.isCloud, masked_eq, kCloudDraftIndex, kCloudDraftShift, ServerMaxMsgId,
    Bool.eq_iff_iff, Bool.or_eq_true, Bool.and_eq_true, beq_iff_eq, decide_eq_true_eq,
    decide_eq_true_eq, decide_eq_true_eq]
  omega

theorem hasMonoforumBit_region : key.hasMonoforumBit = true ↔ ¬ n < ServerMaxMsgId := by
  unfold Regular kMonoforumDraftBit at hn
  unfold ServerMaxMsgId at hn hvalue ⊢
  rw [hasMonoforumBit_iff]
  omega

theorem topicRootId_region (hthread : r ≤ 2) : key.topicRootId = topicOf n := by
  have hbit := hasMonoforumBit_region hr hn hvalue
  unfold DraftKey.topicRootId topicOf
  by_cases htopic : n < ServerMaxMsgId
  · rw [if_neg fun h => hbit.mp h htopic, if_pos htopic]
    unfold Regular kMonoforumDraftBit at hn
    unfold kCloudDraftShift kEditDraftShift
    unfold ServerMaxMsgId at *
    change @Eq Int _ n
    split
    · omega
    · split
      · omega
      · split <;> omega
  · rw [if_pos (hbit.mpr htopic), if_neg htopic]

theorem monoforumPeerId_region (hthread : r ≤ 2) : key.monoforumPeerId = peerOf n := by
  have hbit := hasMonoforumBit_region hr hn hvalue
  unfold DraftKey.monoforumPeerId peerOf
  dsimp only
  by_cases htopic : n < ServerMaxMsgId
  · rw [Bool.eq_false_iff.mpr fun h => hbit.mp h htopic, if_pos htopic]
    rfl
  · rw [hbit.mpr htopic, if_neg htopic, masked_eq]
    unfold Regular at hn
    unfold kCloudDraftShift kEditDraftShift
    unfold kMonoforumDraftBit at *
    unfold ServerMaxMsgId at *
    have hvalue' : key.value % 2 ^ 60 = r * 2 ^ 56 + (n - 2 ^ 60) := by omega
    rw [hvalue', Bool.not_true, if_neg Bool.false_ne_true]
    split
    · congr 1
      omega
    · split
      · congr 1
        omega
      · split
        · congr 1
          omega
        · omega

end Region

/-- The sources with a key that is mixed up with another. -/
def mixed : List Source :=
  [.localEdit 0 {}, .scheduledEdit, .local_ (ServerMaxMsgId - 1) {},
    .local_ (ServerMaxMsgId - 3) {}]

/-- A source with a number has no key of an index but in the two places where an index is
shifted into its range. -/
theorem eq_of_indexed {r n : Int} (hr : 0 ≤ r ∧ r ≤ 4) (hn : Regular n) {other : Source}
    (hother : other ∈ indexed) (heq : other.key.value = r * ServerMaxMsgId + n) :
    region r n ∈ mixed := by
  have hbounds := hn.bounds
  unfold ServerMaxMsgId at heq
  have hcases : r = 0 ∧ (n = 2 ^ 56 - 1 ∨ n = 2 ^ 56 - 3) := by
    simp only [indexed, List.mem_cons, List.not_mem_nil, or_false] at hother
    unfold Regular kMonoforumDraftBit ServerMaxMsgId at hn
    obtain rfl | rfl | rfl | rfl | rfl := hother
    · have hkey : (Source.local_ 0 {}).key.value = -1 := by decide
      omega
    · have hkey : (Source.cloud 0 {}).key.value = -2 := by decide
      omega
    · have hkey : Source.scheduled.key.value = -3 := by decide
      omega
    · have hkey : (Source.localEdit 0 {}).key.value = 2 ^ 56 - 1 := by decide
      omega
    · have hkey : Source.scheduledEdit.key.value = 2 ^ 56 - 3 := by decide
      omega
  obtain ⟨rfl, rfl | rfl⟩ := hcases <;> decide

/-- **A source with a number** is read back and told apart, where it is not one of the local
threads at the end of their range. -/
theorem unmixed_region {r n : Int} (hr : 0 ≤ r ∧ r ≤ 4) (hn : Regular n)
    (hvalue : (region r n).key.value = r * ServerMaxMsgId + n) (hmixed : region r n ∉ mixed) :
    Unmixed (region r n) where
  different other hother heq := by
    obtain hindex | ⟨r', n', hlo, hhi, hn', rfl, hvalue'⟩ := Valid.cases hother
    · exact absurd (eq_of_indexed hr hn hindex (heq ▸ hvalue)) hmixed
    · rw [heq, hvalue] at hvalue'
      obtain ⟨rfl, rfl⟩ := region_inj hr ⟨hlo, hhi⟩ hn hn' hvalue'
      rfl
  topic t ht := by
    by_cases hthread : r ≤ 2
    · rw [topicRootId_region hr hn hvalue hthread]
      obtain rfl | rfl | rfl : r = 0 ∨ r = 1 ∨ r = 2 := by omega
      all_goals exact Option.some.inj ht
    · obtain rfl | rfl : r = 3 ∨ r = 4 := by omega
      all_goals cases ht
  peer p hp := by
    by_cases hthread : r ≤ 2
    · rw [monoforumPeerId_region hr hn hvalue hthread]
      obtain rfl | rfl | rfl : r = 0 ∨ r = 1 ∨ r = 2 := by omega
      all_goals exact Option.some.inj hp
    · obtain rfl | rfl : r = 3 ∨ r = 4 := by omega
      all_goals cases hp
  local_ := by
    rw [isLocal_region hr hn hvalue]
    obtain rfl | rfl | rfl | rfl | rfl : r = 0 ∨ r = 1 ∨ r = 2 ∨ r = 3 ∨ r = 4 := by omega
    all_goals rfl
  cloud := by
    rw [isCloud_region hr hn hvalue]
    obtain rfl | rfl | rfl | rfl | rfl : r = 0 ∨ r = 1 ∨ r = 2 ∨ r = 3 ∨ r = 4 := by omega
    all_goals rfl

/-- The keys of an index alone are negative, and of no other source. -/
theorem unmixed_indexed {source : Source}
    (h : source ∈ [Source.local_ 0 {}, .cloud 0 {}, .scheduled]) : Unmixed source := by
  have hreads : source.key.value < 0 ∧
      (∀ other ∈ indexed, other.key = source.key → other = source) ∧
      (∀ t, source.topicRootId? = some t → source.key.topicRootId = t) ∧
      (∀ p, source.monoforumPeerId? = some p → source.key.monoforumPeerId = p) ∧
      source.key.isLocal = source.isLocal ∧ source.key.isCloud = source.isCloud := by
    simp only [List.mem_cons, List.not_mem_nil, or_false] at h
    obtain rfl | rfl | rfl := h
    · exact ⟨by decide, by decide, by rintro _ ⟨⟩; decide, by rintro _ ⟨⟩; decide, by decide,
        by decide⟩
    · exact ⟨by decide, by decide, by rintro _ ⟨⟩; decide, by rintro _ ⟨⟩; decide, by decide,
        by decide⟩
    · exact ⟨by decide, by decide, by rintro _ ⟨⟩, by rintro _ ⟨⟩, by decide, by decide⟩
  obtain ⟨hvalue, hdifferent, htopic, hpeer, hlocal, hcloud⟩ := hreads
  refine ⟨fun other hother heq => ?_, htopic, hpeer, hlocal, hcloud⟩
  obtain hindex | ⟨r, n, hlo, -, hn, -, hvalue'⟩ := Valid.cases hother
  · exact hdifferent other hindex heq
  · have hbounds := hn.bounds
    unfold ServerMaxMsgId at hvalue'
    rw [heq] at hvalue'
    omega

/-- **Draft keys mix up four sources.** The shifted index of the edited drafts is the number
of a topic, for a local draft and for the scheduled ones; every other key is of one source and
is read back as what it was made for. -/
theorem unmixed_iff {source : Source} (h : source.Valid) :
    Unmixed source ↔ source ∉ mixed := by
  constructor
  · intro hunmixed hmixed
    simp only [mixed, List.mem_cons, List.not_mem_nil, or_false] at hmixed
    obtain rfl | rfl | rfl | rfl := hmixed
    · exact absurd hunmixed.local_ (by decide)
    · exact absurd hunmixed.local_ (by decide)
    · have hvalid : (Source.localEdit 0 {}).Valid :=
        ⟨by decide, by decide, by decide, Or.inl rfl⟩
      exact absurd (hunmixed.different _ hvalid (by decide)) (by decide)
    · exact absurd (hunmixed.different .scheduledEdit trivial (by decide)) (by decide)
  · intro hmixed
    obtain hindex | ⟨r, n, hlo, hhi, hn, rfl, hvalue⟩ := Valid.cases h
    · refine unmixed_indexed ?_
      simp only [indexed, mixed, List.mem_cons, List.not_mem_nil, or_false] at hindex hmixed ⊢
      obtain rfl | rfl | rfl | rfl | rfl := hindex
      · exact Or.inl rfl
      · exact Or.inr (Or.inl rfl)
      · exact Or.inr (Or.inr rfl)
      · exact absurd (Or.inl rfl) hmixed
      · exact absurd (Or.inr (Or.inl rfl)) hmixed
    · exact unmixed_region ⟨hlo, hhi⟩ hn hvalue hmixed

/-- The cloud draft with a user. -/
theorem unmixed_cloud_peer : Unmixed (.cloud 0 { value := 777000 }) := by
  have hvalid : (Source.cloud 0 { value := 777000 }).Valid :=
    ⟨by decide, by decide, by decide, Or.inl rfl⟩
  exact (unmixed_iff hvalid).mpr (by decide)

/-- The edited local draft of a chat without topics is taken for the local draft of the last
topic. -/
theorem not_unmixed_localEdit :
    (Source.localEdit 0 {}).Valid ∧ ¬ Unmixed (.localEdit 0 {}) :=
  ⟨⟨by decide, by decide, by decide, Or.inl rfl⟩, fun h => absurd h.local_ (by decide)⟩

end Source

end DraftKey

end Data

end MessengerClient
