import Mathlib.Algebra.Order.Ring.Int

/-!
# MessengerClient.Credits

`CreditsAmount`, an amount of stars or of another currency with its nano part,
and `Data::Credits`, the balance of the account with the part of it that is
locked for payments not made yet.  A failed `Expects` is `none`.

An amount is compared field by field; `le_iff_nanos_le` says that for stars this
compares the total number of nanos, which adds up (`nanos_add`).
-/

namespace MessengerClient

/-! ## Amounts -/

def kOneStarInNano : Int := 1000000000

/-- `CreditsAmount::normalize`: the whole and the nano part with the second one
brought below one star. -/
def normalize (whole nano : Int) : Int × Int :=
  if nano < 0 then
    let shifts := (-nano + kOneStarInNano - 1) / kOneStarInNano
    (whole - shifts, nano + shifts * kOneStarInNano)
  else if nano ≥ kOneStarInNano then
    let shifts := nano / kOneStarInNano
    (whole + shifts, nano - shifts * kOneStarInNano)
  else
    (whole, nano)

theorem normalize_nano (whole nano : Int) :
    0 ≤ (normalize whole nano).2 ∧ (normalize whole nano).2 < kOneStarInNano := by
  unfold normalize kOneStarInNano
  dsimp only
  repeat' split
  all_goals dsimp only; omega

theorem normalize_total (whole nano : Int) :
    (normalize whole nano).1 * kOneStarInNano + (normalize whole nano).2 =
      whole * kOneStarInNano + nano := by
  unfold normalize kOneStarInNano
  dsimp only
  split
  · omega
  · split
    · omega
    · rfl

/-- `CreditsAmount`: the nano part is less than one star. -/
structure CreditsAmount where
  ton : Bool
  whole : Int
  nano : Int
  normal : 0 ≤ nano ∧ nano < kOneStarInNano
deriving DecidableEq, Repr

namespace CreditsAmount

/-- `CreditsAmount(whole)`: stars. -/
def ofWhole (whole : Int) : CreditsAmount := ⟨false, whole, 0, by decide⟩

def ofParts (ton : Bool) (whole nano : Int) : CreditsAmount :=
  ⟨ton, (normalize whole nano).1, (normalize whole nano).2, normalize_nano whole nano⟩

/-- The sum keeps the currency of its left side, as `operator+=` does. -/
instance : Add CreditsAmount where
  add a b := ofParts a.ton (a.whole + b.whole) (a.nano + b.nano)

instance : Sub CreditsAmount where
  sub a b := ofParts a.ton (a.whole - b.whole) (a.nano - b.nano)

/-- `operator<=>`: the whole parts, the nano parts, then the currencies if the
amount is not zero. -/
def cmp (a b : CreditsAmount) : Ordering :=
  (compare a.whole b.whole).then <| (compare a.nano b.nano).then <|
    if a.whole ≠ 0 ∨ a.nano ≠ 0 then compare a.ton.toNat b.ton.toNat else .eq

instance : LE CreditsAmount where
  le a b := a.cmp b ≠ .gt

instance (a b : CreditsAmount) : Decidable (a ≤ b) :=
  inferInstanceAs (Decidable (a.cmp b ≠ .gt))

/-- The amount in nanos. -/
def nanos (amount : CreditsAmount) : Int := amount.whole * kOneStarInNano + amount.nano

theorem nanos_ofWhole (whole : Int) : (ofWhole whole).nanos = whole * kOneStarInNano :=
  Int.add_zero _

theorem nanos_add (a b : CreditsAmount) : (a + b).nanos = a.nanos + b.nanos := by
  show (ofParts _ _ _).nanos = _
  unfold nanos ofParts
  rw [normalize_total, Int.add_mul]
  omega

theorem nanos_sub (a b : CreditsAmount) : (a - b).nanos = a.nanos - b.nanos := by
  show (ofParts _ _ _).nanos = _
  unfold nanos ofParts
  rw [normalize_total, Int.sub_mul]
  omega

@[simp] theorem ton_add (a b : CreditsAmount) : (a + b).ton = a.ton := rfl
@[simp] theorem ton_sub (a b : CreditsAmount) : (a - b).ton = a.ton := rfl
@[simp] theorem ton_ofWhole (whole : Int) : (ofWhole whole).ton = false := rfl

/-- **Amounts of stars compare as their nanos do.** -/
theorem le_iff_nanos_le {a b : CreditsAmount} (ha : a.ton = false) (hb : b.ton = false) :
    a ≤ b ↔ a.nanos ≤ b.nanos := by
  show a.cmp b ≠ .gt ↔ _
  have hna := a.normal
  have hnb := b.normal
  unfold cmp nanos
  unfold kOneStarInNano at *
  obtain hlt | heq | hgt := lt_trichotomy a.whole b.whole
  · rw [compare_lt_iff_lt.mpr hlt]
    exact iff_of_true (by simp [Ordering.then]) (by omega)
  · rw [ha, hb, compare_eq_iff_eq.mpr heq]
    obtain hlt | heq' | hgt := lt_trichotomy a.nano b.nano
    · rw [compare_lt_iff_lt.mpr hlt]
      exact iff_of_true (by simp [Ordering.then]) (by omega)
    · rw [compare_eq_iff_eq.mpr heq']
      refine iff_of_true ?_ (by omega)
      split <;> decide
    · rw [compare_gt_iff_gt.mpr hgt]
      exact iff_of_false (by simp [Ordering.then]) (by omega)
  · rw [compare_gt_iff_gt.mpr hgt]
    exact iff_of_false (by simp [Ordering.then]) (by omega)

end CreditsAmount

/-! ## The account -/

namespace Data

/-- `Data::Credits`; a time that was never set is `false` in `lastLoaded` and
`tonLastLoaded`. -/
structure Credits where
  balance : CreditsAmount := .ofWhole 0
  locked : CreditsAmount := .ofWhole 0
  nonLockedBalance : CreditsAmount := .ofWhole 0
  lastLoaded : Bool := false
  tonBalance : CreditsAmount := .ofWhole 0
  tonLastLoaded : Bool := false
deriving DecidableEq, Repr

namespace Credits

def loaded (c : Credits) : Bool := c.lastLoaded

def updateNonLockedValue (c : Credits) : Credits :=
  { c with
    nonLockedBalance := if c.locked ≤ c.balance then c.balance - c.locked else .ofWhole 0 }

def lock (c : Credits) (count : CreditsAmount) : Option Credits :=
  if !c.loaded then
    none
  else if ¬ .ofWhole 0 ≤ count then
    none
  else if ¬ c.locked + count ≤ c.balance then
    none
  else
    some { c with locked := c.locked + count }.updateNonLockedValue

def unlock (c : Credits) (count : CreditsAmount) : Option Credits :=
  if ¬ .ofWhole 0 ≤ count then
    none
  else if ¬ count ≤ c.locked then
    none
  else
    some { c with locked := c.locked - count }.updateNonLockedValue

def apply (c : Credits) (balance : CreditsAmount) : Credits :=
  if balance.ton then
    { c with tonBalance := balance, tonLastLoaded := true }
  else
    { { c with balance := balance }.updateNonLockedValue with lastLoaded := true }

def withdrawLocked (c : Credits) (count : CreditsAmount) : Option Credits :=
  if ¬ .ofWhole 0 ≤ count then
    none
  else if ¬ count ≤ c.locked then
    none
  else
    let c := { c with locked := c.locked - count }
    some (c.apply (if count ≤ c.balance then c.balance - count else .ofWhole 0))

end Credits

end Data

end MessengerClient
