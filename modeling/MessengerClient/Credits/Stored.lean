import Mathlib
import MessengerClient.Credits

/-!
# MessengerClient.Credits.Stored

`CreditsAmount` of `core/credits_amount.h` as it is stored: a currency bit, a
whole part in a field of 62 bits and a nano part in an `int64`, with signed
arithmetic that keeps the low bits.

The amounts of `Credits` have no bounds, so their operations are exact;
`normalize_eq` says that the stored ones compute the same fields while the
result and the intermediate nano part stay in range.  Two operations leave the
arithmetic: `abs` builds its result without the currency, and the defaulted
`==` tells the two zeros apart that `<=>` calls equal.
-/

namespace MessengerClient

namespace CreditsAmount

/-! ## Stored amounts -/

/-- What a field of 62 bits keeps. -/
def int62 (n : Int) : Int := n.bmod (2 ^ 62)

def int64 (n : Int) : Int := n.bmod (2 ^ 64)

/-- The members `_ton`, `_whole` and `_nano`. -/
structure Stored where
  ton : Bool := false
  whole : Int := 0
  nano : Int := 0
deriving DecidableEq, Repr

namespace Stored

def empty (a : Stored) : Bool := a.whole == 0 && a.nano == 0

def normalize (a : Stored) : Stored :=
  if a.nano < 0 then
    let shifts := (int64 (int64 (int64 (-a.nano) + kOneStarInNano) - 1)).tdiv kOneStarInNano
    { a with
      nano := int64 (a.nano + int64 (shifts * kOneStarInNano))
      whole := int62 (a.whole - shifts) }
  else if a.nano ≥ kOneStarInNano then
    let shifts := a.nano.tdiv kOneStarInNano
    { a with
      nano := int64 (a.nano - int64 (shifts * kOneStarInNano))
      whole := int62 (a.whole + shifts) }
  else
    a

/-- `CreditsAmount(whole, type)`. -/
def ofWhole (whole : Int) (ton : Bool) : Stored := { ton := ton, whole := int62 whole }

/-- `CreditsAmount(whole, nano, type)`, which `multiplied` also ends with. -/
def ofParts (whole nano : Int) (ton : Bool) : Stored :=
  Stored.normalize ⟨ton, int62 whole, int64 nano⟩

/-- `operator+=`. -/
def add (a other : Stored) : Stored :=
  Stored.normalize { a with
    whole := int62 (a.whole + other.whole), nano := int64 (a.nano + other.nano) }

/-- `operator-=`. -/
def sub (a other : Stored) : Stored :=
  Stored.normalize { a with
    whole := int62 (a.whole - other.whole), nano := int64 (a.nano - other.nano) }

/-- `operator*=`. -/
def mul (a : Stored) (multiplier : Int) : Stored :=
  Stored.normalize { a with
    whole := int62 (a.whole * multiplier), nano := int64 (a.nano * multiplier) }

/-- `operator-`. -/
def neg (a : Stored) : Stored := a.mul (-1)

/-- The branch for a negative amount calls the constructor with its default type. -/
def abs (a : Stored) : Stored :=
  if a.whole < 0 then ofParts (-a.whole) (-a.nano) false else a

/-- `operator<=>`. -/
def cmp (a b : Stored) : Ordering :=
  (compare a.whole b.whole).then <| (compare a.nano b.nano).then <|
    if a.whole ≠ 0 ∨ a.nano ≠ 0 then compare a.ton.toNat b.ton.toNat else .eq

def lt (a b : Stored) : Bool := a.cmp b == .lt

/-- The defaulted `operator==`, member by member. -/
def eq (a b : Stored) : Bool := a.ton == b.ton && a.whole == b.whole && a.nano == b.nano

/-! ## Amounts in range -/

/-- The amount in nanos. -/
def value (a : Stored) : Int := a.whole * kOneStarInNano + a.nano

/-- An amount of `n` nanos has a whole part below `2^60` in size. -/
def Fits (n : Int) : Prop := -2 ^ 60 < n / kOneStarInNano ∧ n / kOneStarInNano < 2 ^ 60

/-- The intermediate nano part of an operation. -/
def Small (nano : Int) : Prop := -2 ^ 62 < nano ∧ nano < 2 ^ 62

structure Normal (a : Stored) : Prop where
  nano : 0 ≤ a.nano ∧ a.nano < kOneStarInNano
  whole : -2 ^ 60 < a.whole ∧ a.whole < 2 ^ 60

/-- The amounts that constructors and operations make within the range. -/
inductive Made : Stored → Prop where
  | zero : Made {}
  | ofWhole (whole : Int) (ton : Bool) :
      Fits (whole * kOneStarInNano) → Made (ofWhole whole ton)
  | ofParts (whole nano : Int) (ton : Bool) :
      Small nano → Fits (whole * kOneStarInNano + nano) → Made (ofParts whole nano ton)
  | add {a b : Stored} : Made a → Made b → Fits (a.value + b.value) → Made (a.add b)
  | sub {a b : Stored} : Made a → Made b → Fits (a.value - b.value) → Made (a.sub b)
  | mul {a : Stored} {m : Int} :
      Made a → Small (a.nano * m) → Fits (a.value * m) → Made (a.mul m)
  | neg {a : Stored} : Made a → Fits (-a.value) → Made a.neg
  | abs {a : Stored} : Made a → Fits |a.value| → Made a.abs

theorem int64_eq {n : Int} (hlo : -2 ^ 63 ≤ n) (hhi : n < 2 ^ 63) : int64 n = n :=
  Int.bmod_eq_of_le hlo hhi

theorem int62_eq {n : Int} (hlo : -2 ^ 61 ≤ n) (hhi : n < 2 ^ 61) : int62 n = n :=
  Int.bmod_eq_of_le hlo hhi

/-- Normalising drops what was lost of the whole part before. -/
theorem int62_add_int62 (n k : Int) : int62 (int62 n + k) = int62 (n + k) :=
  Int.bmod_add_bmod

/-- **With a small nano part the stored fields are those of the amount without
bounds, the whole part cut to its field.** -/
theorem normalize_eq (ton : Bool) (whole : Int) {nano : Int} (hnano : Small nano) :
    Stored.normalize ⟨ton, int62 whole, int64 nano⟩ =
      ⟨ton, int62 (MessengerClient.normalize whole nano).1,
        (MessengerClient.normalize whole nano).2⟩ := by
  obtain ⟨hlo, hhi⟩ := hnano
  rw [int64_eq (by omega) (by omega)]
  unfold Stored.normalize MessengerClient.normalize
  dsimp only
  by_cases hneg : nano < 0
  · rw [if_pos hneg, if_pos hneg]
    have hshifts : int64 (int64 (int64 (-nano) + kOneStarInNano) - 1) =
        -nano + kOneStarInNano - 1 := by
      unfold kOneStarInNano
      rw [int64_eq (n := -nano) (by omega) (by omega),
        int64_eq (n := -nano + 1000000000) (by omega) (by omega),
        int64_eq (by omega) (by omega)]
    have hdiv : (-nano + kOneStarInNano - 1).tdiv kOneStarInNano =
        (-nano + kOneStarInNano - 1) / kOneStarInNano :=
      Int.tdiv_eq_ediv_of_nonneg (by unfold kOneStarInNano; omega)
    rw [hshifts, hdiv]
    generalize hk : (-nano + kOneStarInNano - 1) / kOneStarInNano = k
    have hbounds : -nano ≤ k * kOneStarInNano ∧ k * kOneStarInNano < -nano + kOneStarInNano := by
      unfold kOneStarInNano at hk ⊢
      omega
    have hlarge : kOneStarInNano < 2 ^ 61 := by decide
    rw [Int.sub_eq_add_neg, int62_add_int62, ← Int.sub_eq_add_neg,
      int64_eq (n := k * kOneStarInNano) (by omega) (by omega),
      int64_eq (by omega) (by omega)]
  · rw [if_neg hneg, if_neg hneg]
    by_cases hlarge : nano ≥ kOneStarInNano
    · rw [if_pos hlarge, if_pos hlarge, Int.tdiv_eq_ediv_of_nonneg (by omega)]
      generalize hk : nano / kOneStarInNano = k
      have hbounds : 0 ≤ k * kOneStarInNano ∧ k * kOneStarInNano ≤ nano := by
        unfold kOneStarInNano at hk ⊢
        omega
      rw [int62_add_int62, int64_eq (n := k * kOneStarInNano) (by omega) (by omega),
        int64_eq (by omega) (by omega)]
    · rw [if_neg hlarge, if_neg hlarge]

/-! ## The operations -/

/-- The amount is normal and stands for `nanos` in the currency `ton`. -/
structure Holds (a : Stored) (nanos : Int) (ton : Bool) : Prop where
  normal : a.Normal
  value : a.value = nanos
  ton : a.ton = ton

/-- The whole part is the floor of the value. -/
theorem whole_eq {whole nano : Int} (hnano : 0 ≤ nano ∧ nano < kOneStarInNano) :
    whole = (whole * kOneStarInNano + nano) / kOneStarInNano := by
  unfold kOneStarInNano at hnano ⊢
  omega

theorem normalize_holds (ton : Bool) {whole nano : Int} (hnano : Small nano)
    (hfits : Fits (whole * kOneStarInNano + nano)) :
    Holds (Stored.normalize ⟨ton, int62 whole, int64 nano⟩)
      (whole * kOneStarInNano + nano) ton := by
  rw [normalize_eq ton whole hnano]
  have hn := normalize_nano whole nano
  have hv := normalize_total whole nano
  have hw := @whole_eq (MessengerClient.normalize whole nano).1 _ hn
  rw [hv] at hw
  rw [Fits, ← hw] at hfits
  obtain ⟨hlo, hhi⟩ := hfits
  rw [int62_eq (by omega) (by omega)]
  exact { normal := ⟨hn, hlo, hhi⟩, value := hv, ton := rfl }

theorem mul_holds {a : Stored} {m : Int} (hsmall : Small (a.nano * m))
    (hfits : Fits (a.value * m)) : Holds (a.mul m) (a.value * m) a.ton := by
  have hvalue : a.value * m = a.whole * m * kOneStarInNano + a.nano * m := by
    unfold value
    ring
  rw [hvalue] at hfits ⊢
  exact normalize_holds a.ton hsmall hfits

namespace Normal

variable {a b : Stored}

theorem small (ha : a.Normal) : Small a.nano :=
  ⟨by have := ha.nano.1; omega, by have := ha.nano.2; unfold kOneStarInNano at this; omega⟩

theorem holds (ha : a.Normal) : Holds a a.value a.ton := ⟨ha, rfl, rfl⟩

theorem whole_eq (ha : a.Normal) : a.whole = a.value / kOneStarInNano :=
  Stored.whole_eq ha.nano

theorem whole_neg_iff (ha : a.Normal) : a.whole < 0 ↔ a.value < 0 := by
  rw [ha.whole_eq]
  unfold kOneStarInNano
  omega

theorem add (ha : a.Normal) (hb : b.Normal) (hfits : Fits (a.value + b.value)) :
    Holds (a.add b) (a.value + b.value) a.ton := by
  have hsmall : Small (a.nano + b.nano) := by
    have hna := ha.nano
    have hnb := hb.nano
    unfold kOneStarInNano at hna hnb
    constructor <;> omega
  have hvalue : a.value + b.value =
      (a.whole + b.whole) * kOneStarInNano + (a.nano + b.nano) := by
    unfold value
    ring
  rw [hvalue] at hfits ⊢
  exact normalize_holds a.ton hsmall hfits

theorem sub (ha : a.Normal) (hb : b.Normal) (hfits : Fits (a.value - b.value)) :
    Holds (a.sub b) (a.value - b.value) a.ton := by
  have hsmall : Small (a.nano - b.nano) := by
    have hna := ha.nano
    have hnb := hb.nano
    unfold kOneStarInNano at hna hnb
    constructor <;> omega
  have hvalue : a.value - b.value =
      (a.whole - b.whole) * kOneStarInNano + (a.nano - b.nano) := by
    unfold value
    ring
  rw [hvalue] at hfits ⊢
  exact normalize_holds a.ton hsmall hfits

theorem neg (ha : a.Normal) (hfits : Fits (-a.value)) : Holds a.neg (-a.value) a.ton := by
  have hsmall : Small (a.nano * -1) := by
    obtain ⟨hlo, hhi⟩ := ha.small
    constructor <;> omega
  have hvalue : -a.value = a.value * -1 := by ring
  rw [hvalue] at hfits ⊢
  exact mul_holds hsmall hfits

/-- The size of an amount is in range with the amount. -/
theorem fits_abs (ha : a.Normal) : Fits |a.value| := by
  have hw := ha.whole
  rw [ha.whole_eq] at hw
  unfold Fits
  unfold kOneStarInNano at hw ⊢
  cases abs_cases a.value <;> omega

/-- **`abs` has the right value, but always stars when the amount is negative.** -/
theorem abs (ha : a.Normal) :
    Holds a.abs |a.value| (if a.value < 0 then false else a.ton) := by
  unfold Stored.abs
  by_cases hneg : a.value < 0
  · rw [if_pos (ha.whole_neg_iff.mpr hneg), if_pos hneg, abs_of_neg hneg]
    have hsmall : Small (-a.nano) := by
      obtain ⟨hlo, hhi⟩ := ha.small
      constructor <;> omega
    have hvalue : -a.value = -a.whole * kOneStarInNano + -a.nano := by
      unfold value
      ring
    have hfits := ha.fits_abs
    rw [abs_of_neg hneg] at hfits
    rw [hvalue] at hfits ⊢
    exact normalize_holds false hsmall hfits
  · rw [if_neg (fun h => hneg (ha.whole_neg_iff.mp h)), if_neg hneg,
      abs_of_nonneg (not_lt.mp hneg)]
    exact ha.holds

end Normal

theorem Made.normal {a : Stored} (h : Made a) : a.Normal := by
  induction h with
  | zero => exact ⟨by decide, by decide⟩
  | ofWhole whole ton hfits =>
    have hw : whole = whole * kOneStarInNano / kOneStarInNano := by
      unfold kOneStarInNano
      omega
    rw [Fits, ← hw] at hfits
    obtain ⟨hlo, hhi⟩ := hfits
    have heq : Stored.ofWhole whole ton = ⟨ton, whole, 0⟩ := by
      rw [Stored.ofWhole, int62_eq (by omega) (by omega)]
    rw [heq]
    exact { nano := ⟨le_rfl, by dsimp only; decide⟩, whole := ⟨hlo, hhi⟩ }
  | ofParts whole nano ton hsmall hfits => exact (normalize_holds ton hsmall hfits).normal
  | add _ _ hfits iha ihb => exact (iha.add ihb hfits).normal
  | sub _ _ hfits iha ihb => exact (iha.sub ihb hfits).normal
  | mul _ hsmall hfits _ => exact (mul_holds hsmall hfits).normal
  | neg _ hfits ih => exact (ih.neg hfits).normal
  | abs _ _ ih => exact ih.abs.normal

/-! ## The orders -/

/-- Normal amounts of one value have the same whole and nano parts. -/
theorem Normal.parts_eq {a b : Stored} (ha : a.Normal) (hb : b.Normal)
    (hvalue : a.value = b.value) : a.whole = b.whole ∧ a.nano = b.nano := by
  have hwhole : a.whole = b.whole := by rw [ha.whole_eq, hb.whole_eq, hvalue]
  refine ⟨hwhole, ?_⟩
  unfold value at hvalue
  rw [hwhole] at hvalue
  exact Int.add_left_cancel hvalue

theorem Normal.value_eq_zero_iff {a : Stored} (ha : a.Normal) :
    a.value = 0 ↔ a.whole = 0 ∧ a.nano = 0 := by
  constructor
  · exact ha.parts_eq (b := {}) ⟨by decide, by decide⟩
  · rintro ⟨hwhole, hnano⟩
    rw [value, hwhole, hnano]
    rfl

/-- **`<` compares the values, then the currencies of what is not zero.** -/
theorem Normal.lt_iff {a b : Stored} (ha : a.Normal) (hb : b.Normal) :
    a.lt b = true ↔ a.value < b.value ∨
      a.value = b.value ∧ a.value ≠ 0 ∧ a.ton = false ∧ b.ton = true := by
  have hna := ha.nano
  have hnb := hb.nano
  unfold kOneStarInNano at hna hnb
  obtain hlt | heq | hgt := lt_trichotomy a.value b.value
  · refine iff_of_true ?_ (Or.inl hlt)
    unfold value kOneStarInNano at hlt
    obtain hw | hw : a.whole < b.whole ∨ a.whole = b.whole ∧ a.nano < b.nano := by omega
    · simp [lt, cmp, compare_lt_iff_lt.mpr hw, Ordering.then]
    · simp [lt, cmp, compare_eq_iff_eq.mpr hw.1, compare_lt_iff_lt.mpr hw.2, Ordering.then]
  · obtain ⟨hw, hn⟩ := ha.parts_eq hb heq
    have hzero : a.value ≠ 0 ↔ a.whole ≠ 0 ∨ a.nano ≠ 0 := by
      rw [ne_eq, ha.value_eq_zero_iff]
      tauto
    rw [hzero, lt, cmp, compare_eq_iff_eq.mpr hw, compare_eq_iff_eq.mpr hn]
    by_cases h : a.whole ≠ 0 ∨ a.nano ≠ 0
    · cases hat : a.ton <;> cases hbt : b.ton <;>
        simp [h, heq, Ordering.then, compare, compareOfLessAndEq]
    · simp [h, heq, Ordering.then]
  · refine iff_of_false ?_ (by omega)
    unfold value kOneStarInNano at hgt
    obtain hw | hw : b.whole < a.whole ∨ a.whole = b.whole ∧ b.nano < a.nano := by omega
    · simp [lt, cmp, compare_gt_iff_gt.mpr hw, Ordering.then]
    · simp [lt, cmp, compare_eq_iff_eq.mpr hw.1, compare_gt_iff_gt.mpr hw.2, Ordering.then]

theorem Normal.eq_iff {a b : Stored} (ha : a.Normal) (hb : b.Normal) :
    a.eq b = true ↔ a.value = b.value ∧ a.ton = b.ton := by
  unfold eq
  rw [Bool.and_eq_true, Bool.and_eq_true, beq_iff_eq, beq_iff_eq, beq_iff_eq]
  constructor
  · rintro ⟨⟨hton, hwhole⟩, hnano⟩
    exact ⟨by rw [value, value, hwhole, hnano], hton⟩
  · rintro ⟨hvalue, hton⟩
    obtain ⟨hwhole, hnano⟩ := ha.parts_eq hb hvalue
    exact ⟨⟨hton, hwhole⟩, hnano⟩

/-! ## Exactness -/

/-- Two amounts and a multiplier are handled as exact money. -/
structure Exact (a b : Stored) (m : Int) : Prop where
  normal : a.Normal ∧ b.Normal
  add : Fits (a.value + b.value) → Holds (a.add b) (a.value + b.value) a.ton
  sub : Fits (a.value - b.value) → Holds (a.sub b) (a.value - b.value) a.ton
  mul : Small (a.nano * m) → Fits (a.value * m) → Holds (a.mul m) (a.value * m) a.ton
  neg : Fits (-a.value) → Holds a.neg (-a.value) a.ton
  abs : Fits |a.value| → Holds a.abs |a.value| a.ton
  lt : a.lt b = true ↔ a.value < b.value ∨
    a.value = b.value ∧ a.value ≠ 0 ∧ a.ton = false ∧ b.ton = true
  eq : a.eq b = true ↔ ¬ a.lt b = true ∧ ¬ b.lt a = true

/-- **Amounts in range are exact money unless a negative one is not in stars,
whose `abs` is then in stars, or two zeros differ in currency.** -/
theorem exact_iff {a b : Stored} (ha : Made a) (hb : Made b) (m : Int) :
    Exact a b m ↔ ¬ (a.value < 0 ∧ a.ton = true) ∧
      ¬ (a.value = 0 ∧ b.value = 0 ∧ a.ton ≠ b.ton) := by
  have hna := ha.normal
  have hnb := hb.normal
  constructor
  · intro h
    constructor
    · rintro ⟨hneg, hton⟩
      have hkept := (h.abs hna.fits_abs).ton
      have hstars := hna.abs.ton
      rw [if_pos hneg] at hstars
      rw [hstars, hton] at hkept
      exact absurd hkept (by decide)
    · rintro ⟨hza, hzb, hton⟩
      refine hton ((hna.eq_iff hnb).mp (h.eq.mpr ⟨?_, ?_⟩)).2
      · rw [hna.lt_iff hnb, hza, hzb]
        simp
      · rw [hnb.lt_iff hna, hza, hzb]
        simp
  · rintro ⟨hneg, hzero⟩
    refine
      { normal := ⟨hna, hnb⟩
        add := hna.add hnb
        sub := hna.sub hnb
        mul := mul_holds
        neg := hna.neg
        abs := fun _ => ?_
        lt := hna.lt_iff hnb
        eq := ?_ }
    · have habs := hna.abs
      by_cases h : a.value < 0
      · rw [if_pos h] at habs
        rwa [Bool.eq_false_of_not_eq_true fun hton => hneg ⟨h, hton⟩]
      · rwa [if_neg h] at habs
    · rw [hna.eq_iff hnb, hna.lt_iff hnb, hnb.lt_iff hna]
      obtain hlt | heq | hgt := lt_trichotomy a.value b.value
      · exact iff_of_false (fun h => by omega) (fun h => h.1 (Or.inl hlt))
      · rw [heq] at hzero ⊢
        cases hat : a.ton <;> cases hbt : b.ton <;> simp_all
      · exact iff_of_false (fun h => by omega) (fun h => h.2 (Or.inl hgt))

/-- The sum of 1.5 and 2.75 stars and the other operations on the two. -/
theorem exact_stars :
    Exact (ofParts 1 500000000 false) (ofParts 2 750000000 false) (-3) :=
  (exact_iff (.ofParts 1 500000000 false (by unfold Small; decide) (by unfold Fits; decide))
    (.ofParts 2 750000000 false (by unfold Small; decide) (by unfold Fits; decide)) (-3)).mpr
    (by decide)

/-- One negative ton and a zero: its `abs` is one star. -/
theorem not_exact_negative_ton :
    Made (ofWhole (-1) true) ∧ ¬ Exact (ofWhole (-1) true) {} 1 := by
  refine ⟨.ofWhole (-1) true (by unfold Fits; decide), fun h => ?_⟩
  have hkept := (h.abs (by unfold Fits; decide)).ton
  exact absurd hkept (by decide)

end Stored

end CreditsAmount

end MessengerClient
